import LearnKvm.Lib.Eratosthenes
import Mathlib.NumberTheory.PrimeCounting
import Mathlib.Data.Nat.Digits.Lemmas

/-!
# The test program of libkvm (`sieve.c`)

The program that the test loader runs in a guest counts primes and prints their number.  Accesses outside of an array and
overflows of `int` are not defined; then the functions give `none`.
-/

namespace LearnKvm

open Eratosthenes

/-! ### `int` and arrays of `char` -/

def addInt (a b : Nat) : Option Nat := if a + b < 2 ^ 31 then some (a + b) else none

def mulInt (a b : Nat) : Option Nat := if a * b < 2 ^ 31 then some (a * b) else none

abbrev Chars := Nat → BitVec 8

def storeChar (len : Nat) (data : Chars) (i : Nat) (c : BitVec 8) : Option Chars :=
  if i < len then some (Function.update data i c) else none

def loadChar (len : Nat) (data : Chars) (i : Nat) : Option (BitVec 8) := if i < len then some (data i) else none

/-! ### `print` and `printi` -/

/-- The bytes of a text. -/
def ascii (s : String) : List (BitVec 8) := s.toList.map fun c => BitVec.ofNat 8 c.toNat

/-- `print` writes to the serial port up to the terminating zero; with fuel. -/
def print (len : Nat) (text : Chars) : Nat → Nat → Option (List (BitVec 8))
  | 0, _ => none
  | fuel + 1, i => do
    let c ← loadChar len text i
    if c = 0 then some []
    else
      let rest ← print len text fuel (i + 1)
      some (c :: rest)

/-- `-n` as an `int`. -/
def negInt (n : Int) : Option Int := if n = -2 ^ 31 then none else some (-n)

/-- The length of the array `buf` of `printi`. -/
def printiLen : Nat := 10

/-- The loop over the digits, with fuel; `p` is the place of the pointer in `buf`. -/
def printiDigits : Nat → Nat → Nat → Chars → Option (Nat × Chars)
  | 0, _, _, _ => none
  | fuel + 1, n, p, buf =>
    if n ≠ 0 then do
      let buf ← storeChar printiLen buf p (BitVec.ofNat 8 (48 + n % 10))
      printiDigits fuel (n / 10) (p + 1) buf
    else some (p, buf)

/-- The loop that reverses the text, with `rounds` to go. -/
def printiReverse (p : Nat) : Nat → Nat → Chars → Option Chars
  | 0, _, buf => some buf
  | rounds + 1, i, buf => do
    let tmp ← loadChar printiLen buf i
    let c ← loadChar printiLen buf (p - 1 - i)
    let buf ← storeChar printiLen buf i c
    let buf ← storeChar printiLen buf (p - 1 - i) tmp
    printiReverse p rounds (i + 1) buf

/-- `*p++ = c` -/
def printiPut (c : BitVec 8) (q : Nat × Chars) : Option (Nat × Chars) := do
  let buf ← storeChar printiLen q.2 q.1 c
  some (q.1 + 1, buf)

/-- The end of `printi`, from the reversal on. -/
def printiEnd (q : Nat × Chars) : Option (List (BitVec 8)) := do
  let buf ← printiReverse q.1 (q.1 / 2) 0 q.2
  let buf ← storeChar printiLen buf q.1 0
  print printiLen buf (printiLen + 1) 0

/-- What `printi` prints, `buf` being what is on its stack. -/
def printi (buf : Chars) (n : Int) : Option (List (BitVec 8)) := do
  let s := decide (n < 0)
  let n ← (if s then negInt n else some n)
  let q ← printiDigits (n.toNat + 1) n.toNat 0 buf
  let q ← (if s then printiPut 45 q else some q)
  let q ← (if q.1 = 0 then printiPut 48 q else some q)
  printiEnd q

/-! ### `sieve` -/

/-- The first loop, with `n` rounds to go. -/
def sieveFill (len : Nat) : Nat → Nat → Chars → Option Chars
  | 0, _, data => some data
  | n + 1, i, data => do
    let data ← storeChar len data i 1
    sieveFill len n (i + 1) data

/-- The inner loop, with fuel. -/
def sieveCross (len size i : Nat) : Nat → Nat → Chars → Option Chars
  | 0, _, _ => none
  | fuel + 1, j, data =>
    if j < size then do
      let data ← storeChar len data j 0
      let j ← addInt j i
      sieveCross len size i fuel j data
    else some data

/-- The outer loop, with `n` rounds to go. -/
def sieveCount (len size : Nat) : Nat → Nat → Nat → Chars → Option (Nat × Chars)
  | 0, _, r, data => some (r, data)
  | n + 1, i, r, data => do
    let c ← loadChar len data i
    if c ≠ 0 then
      let j ← mulInt i 2
      let data ← sieveCross len size i (size + 1) j data
      sieveCount len size n (i + 1) (r + 1) data
    else sieveCount len size n (i + 1) r data

/-- `len` is the length of the array `data`. -/
def sieve (len : Nat) (data : Chars) (size : Nat) : Option (Nat × Chars) := do
  let data ← sieveFill len size 0 data
  let data ← storeChar len data 1 0
  let data ← storeChar len data 0 0
  sieveCount len size (size - 2) 2 0 data

/-- What `test_sieve` prints and leaves in the array. -/
def testSieve (stack : Chars) (msg : String) (len : Nat) (data : Chars) (size : Nat) : Option (List (BitVec 8) × Chars) := do
  let (r, data) ← sieve len data size
  let text ← printi stack r
  some (ascii msg ++ ascii ": " ++ text ++ ascii "\n", data)

/-! ### The texts -/

/-- `s` is the beginning of the array. -/
def Holds (buf : Chars) (s : List (BitVec 8)) : Prop := ∀ k c, s[k]? = some c → buf k = c

theorem Holds.store {buf : Chars} {s : List (BitVec 8)} (h : Holds buf s) (c : BitVec 8) :
    Holds (Function.update buf s.length c) (s ++ [c]) := by
  intro k d hk
  rcases lt_trichotomy k s.length with hlt | rfl | hgt
  · rw [List.getElem?_append_left hlt] at hk
    rw [Function.update_of_ne hlt.ne]
    exact h k d hk
  · rw [List.getElem?_concat_length] at hk
    rw [Function.update_self]
    exact Option.some.inj hk
  · rw [List.getElem?_eq_none (by rw [List.length_append, List.length_singleton]; omega)] at hk
    exact absurd hk nofun

/-- The digits of a number, the last one first. -/
def lowFirst (n : Nat) : List (BitVec 8) := (Nat.digits 10 n).map fun d => BitVec.ofNat 8 (48 + d)

theorem lowFirst_pos {n : Nat} (h : n ≠ 0) :
    lowFirst n = BitVec.ofNat 8 (48 + n % 10) :: lowFirst (n / 10) := by
  unfold lowFirst
  rw [Nat.digits_def' (by decide) (Nat.pos_of_ne_zero h), List.map_cons]

theorem length_lowFirst_le {n k : Nat} : (lowFirst n).length ≤ k ↔ n < 10 ^ k := by
  unfold lowFirst
  rw [List.length_map, Nat.digits_length_le_iff (by decide)]

theorem reverse_lowFirst {n : Nat} (h : n ≠ 0) : (lowFirst n).reverse = ascii (toString n) := by
  unfold ascii
  rw [Nat.toString_eq_repr, Nat.toList_repr]
  induction n using Nat.strongRecOn with
  | _ n ih =>
    have hc : ∀ d < 10, BitVec.ofNat 8 (Nat.digitChar d).toNat = BitVec.ofNat 8 (48 + d) := fun d hd => by
      rw [Nat.toNat_digitChar_of_lt_ten hd]
    rw [lowFirst_pos h, List.reverse_cons]
    by_cases hlt : n < 10
    · rw [Nat.toDigits_of_lt_base hlt, Nat.div_eq_of_lt hlt, Nat.mod_eq_of_lt hlt, List.map_singleton, hc n hlt]
      rfl
    · rw [Nat.toDigits_of_base_le (by decide) (by omega), List.map_append, List.map_singleton, hc _ (by omega),
        ih (n / 10) (by omega) (by omega)]

theorem lowFirst_ne_zero {n : Nat} {c : BitVec 8} (h : c ∈ lowFirst n) : c ≠ 0 := by
  obtain ⟨d, hd, rfl⟩ := List.mem_map.1 h
  have := Nat.digits_lt_base (by decide) hd
  intro h0
  have := congrArg BitVec.toNat h0
  rw [BitVec.toNat_ofNat] at this
  change _ = 0 at this
  omega

/-- The loop over the digits appends them to the text, if there is room. -/
theorem printiDigits_eq {fuel n : Nat} {buf : Chars} {s : List (BitVec 8)} (hfuel : n < fuel) (h : Holds buf s) :
    (s.length + (lowFirst n).length ≤ printiLen → ∃ buf',
        printiDigits fuel n s.length buf = some (s.length + (lowFirst n).length, buf') ∧ Holds buf' (s ++ lowFirst n)) ∧
      (printiLen < s.length + (lowFirst n).length → s.length ≤ printiLen → printiDigits fuel n s.length buf = none) := by
  induction fuel generalizing n s buf with
  | zero => omega
  | succ fuel ih =>
    unfold printiDigits
    by_cases hn : n = 0
    · subst hn
      have h0 : lowFirst 0 = [] := rfl
      rw [if_neg (by simp), h0, List.append_nil, List.length_nil, Nat.add_zero]
      exact ⟨fun _ => ⟨buf, rfl, h⟩, by omega⟩
    · have hlen : s.length + (lowFirst n).length =
          (s ++ [BitVec.ofNat 8 (48 + n % 10)]).length + (lowFirst (n / 10)).length := by
        rw [lowFirst_pos hn, List.length_cons, List.length_append, List.length_singleton]
        omega
      have hpos : 1 ≤ (lowFirst n).length := by
        rw [lowFirst_pos hn, List.length_cons]
        omega
      have hnext : (s ++ [BitVec.ofNat 8 (48 + n % 10)]).length = s.length + 1 := by
        rw [List.length_append, List.length_singleton]
      rw [if_pos hn]
      unfold storeChar
      by_cases hroom : s.length < printiLen
      · rw [if_pos hroom, Option.bind_eq_bind, Option.bind_some]
        obtain ⟨hsome, hnone⟩ := ih (n := n / 10) (by omega) (h.store (BitVec.ofNat 8 (48 + n % 10)))
        rw [← hlen, hnext] at hsome hnone
        constructor
        · intro hle
          obtain ⟨buf', hrun, hbuf⟩ := hsome hle
          refine ⟨buf', hrun, ?_⟩
          rw [lowFirst_pos hn, List.append_cons]
          exact hbuf
        · intro hlt _
          exact hnone hlt (by omega)
      · rw [if_neg hroom]
        exact ⟨fun hle => absurd hle (by omega), fun _ _ => rfl⟩

/-- The last loop reverses the text. -/
theorem printiReverse_eq {p rounds i : Nat} {buf : Chars} (hp : p ≤ printiLen) (hi : i + rounds = p / 2) :
    printiReverse p rounds i buf = some fun k => if i ≤ k ∧ k + i < p then buf (p - 1 - k) else buf k := by
  induction rounds generalizing i buf with
  | zero =>
    refine congrArg some (funext fun k => ?_)
    by_cases hk : i ≤ k ∧ k + i < p
    · rw [if_pos hk]
      have : p - 1 - k = k := by omega
      rw [this]
    · rw [if_neg hk]
  | succ rounds ih =>
    unfold printiReverse loadChar storeChar
    simp only [Option.bind_eq_bind]
    rw [if_pos (by omega), Option.bind_some, if_pos (by omega), Option.bind_some, if_pos (by omega), Option.bind_some,
      if_pos (by omega), Option.bind_some, ih (by omega)]
    refine congrArg some (funext fun k => ?_)
    rcases eq_or_ne k i with rfl | hki
    · rw [if_neg (by omega), if_pos (by omega), Function.update_of_ne (by omega), Function.update_self]
    rcases eq_or_ne k (p - 1 - i) with rfl | hkp
    · rw [if_neg (by omega), if_pos (by omega), Function.update_self]
      exact congrArg buf (by omega)
    by_cases hk : i ≤ k ∧ k + i < p
    · rw [if_pos (by omega), if_pos hk, Function.update_of_ne (by omega), Function.update_of_ne (by omega)]
    · rw [if_neg (by omega), if_neg hk, Function.update_of_ne hkp, Function.update_of_ne hki]

theorem print_eq {len fuel i : Nat} {text : Chars} {s : List (BitVec 8)} (h : ∀ k c, s[k]? = some c → text (i + k) = c)
    (hend : text (i + s.length) = 0) (hs : ∀ c ∈ s, c ≠ 0) (hlen : i + s.length < len) (hfuel : s.length < fuel) :
    print len text fuel i = some s := by
  induction s generalizing fuel i with
  | nil =>
    match fuel with
    | fuel + 1 =>
      have hin : i < len := hlen
      have hzero : text i = 0 := hend
      unfold print loadChar
      rw [if_pos hin, Option.bind_eq_bind, Option.bind_some, if_pos hzero]
  | cons c s ih =>
    match fuel with
    | fuel + 1 =>
      have hc : text i = c := h 0 c rfl
      unfold print loadChar
      rw [if_pos (by omega), Option.bind_eq_bind, Option.bind_some, if_neg (by rw [hc]; exact hs c (List.mem_cons_self ..))]
      have hrest : print len text fuel (i + 1) = some s := by
        refine ih (fun k d hk => ?_) ?_ (fun d hd => hs d (List.mem_cons_of_mem _ hd)) ?_ ?_
        · rw [Nat.add_right_comm]
          exact h (k + 1) d hk
        · rw [Nat.add_right_comm]
          exact hend
        · rw [List.length_cons] at hlen
          omega
        · exact Nat.lt_of_succ_lt_succ hfuel
      rw [hrest, hc]
      rfl


theorem printiPut_some {buf : Chars} {p : Nat} (c : BitVec 8) (h : p < printiLen) :
    printiPut c (p, buf) = some (p + 1, Function.update buf p c) := by
  unfold printiPut storeChar
  rw [if_pos h]
  rfl

theorem printiPut_none {buf : Chars} {p : Nat} (c : BitVec 8) (h : printiLen ≤ p) : printiPut c (p, buf) = none := by
  unfold printiPut storeChar
  rw [if_neg (Nat.not_lt.2 h)]
  rfl

/-- The text is reversed and printed, if there is room for the terminating zero. -/
theorem printiEnd_eq {buf : Chars} {s : List (BitVec 8)} (h : Holds buf s) (hs : ∀ c ∈ s, c ≠ 0) (hlen : s.length ≤ printiLen) :
    printiEnd (s.length, buf) = if s.length < printiLen then some s.reverse else none := by
  unfold printiEnd storeChar
  rw [printiReverse_eq hlen (Nat.zero_add _), Option.bind_eq_bind, Option.bind_some]
  by_cases hroom : s.length < printiLen
  · rw [if_pos hroom, if_pos hroom, Option.bind_some]
    refine print_eq (fun k c hk => ?_) ?_ (fun c hc => hs c (List.mem_reverse.1 hc)) ?_ ?_
    · have hk' : k < s.length := by
        rw [← List.length_reverse]
        exact (List.getElem?_eq_some_iff.1 hk).1
      rw [Nat.zero_add, Function.update_of_ne hk'.ne, if_pos (by omega)]
      rw [List.getElem?_reverse hk'] at hk
      exact h _ c hk
    · rw [List.length_reverse, Nat.zero_add, Function.update_self]
    · rw [List.length_reverse, Nat.zero_add]
      exact hroom
    · rw [List.length_reverse]
      omega
  · rw [if_neg hroom, if_neg hroom]
    rfl

theorem holds_nil (buf : Chars) : Holds buf [] := nofun

theorem length_ne_zero {m : Nat} (hm : m ≠ 0) : (lowFirst m).length ≠ 0 := by
  rw [lowFirst_pos hm]
  exact Nat.succ_ne_zero _

theorem ascii_neg {m : Nat} (hm : m ≠ 0) : ascii (toString (-(m : Int))) = (lowFirst m ++ [45]).reverse := by
  obtain ⟨m, rfl⟩ : ∃ k, m = k + 1 := ⟨m - 1, by omega⟩
  have hrepr : (toString (-((m + 1 : Nat) : Int))).toList = '-' :: (toString (m + 1)).toList := String.toList_append ..
  rw [List.reverse_append, reverse_lowFirst hm]
  unfold ascii
  rw [hrepr]
  rfl

/-- The digits of a positive number. -/
theorem printiDigits_run (buf : Chars) (m : Nat) (h : (lowFirst m).length ≤ printiLen) :
    ∃ buf', printiDigits (m + 1) m 0 buf = some ((lowFirst m).length, buf') ∧ Holds buf' (lowFirst m) := by
  obtain ⟨buf', hrun, hbuf⟩ := (printiDigits_eq (Nat.lt_succ_self m) (holds_nil buf)).1 (by simpa using h)
  rw [List.length_nil, Nat.zero_add] at hrun
  exact ⟨buf', hrun, hbuf⟩

theorem printiDigits_overflow {buf : Chars} (m : Nat) (h : printiLen < (lowFirst m).length) :
    printiDigits (m + 1) m 0 buf = none :=
  (printiDigits_eq (Nat.lt_succ_self m) (holds_nil buf)).2 (by simpa using h) (Nat.zero_le _)

theorem printi_neg (buf : Chars) {m : Nat} (hm : m ≠ 0) :
    printi buf (-m) = if m < 10 ^ 8 then some (ascii (toString (-(m : Int)))) else none := by
  have hlen := length_lowFirst_le (n := m) (k := 8)
  unfold printi negInt
  rw [decide_eq_true (by omega)]
  simp only [if_true, Option.bind_eq_bind]
  by_cases hmin : -(m : Int) = -2 ^ 31
  · rw [if_pos hmin, if_neg (by omega)]
    rfl
  rw [if_neg hmin, Option.bind_some, Int.neg_neg, Int.toNat_natCast]
  by_cases hbuf : (lowFirst m).length ≤ printiLen
  · obtain ⟨buf', hrun, hholds⟩ := printiDigits_run buf m hbuf
    rw [hrun, Option.bind_some]
    by_cases hroom : (lowFirst m).length < printiLen
    · rw [printiPut_some 45 hroom, Option.bind_some, if_neg (Nat.succ_ne_zero _), Option.bind_some]
      have hend := printiEnd_eq (hholds.store 45) (fun c hc => ?_) (by rw [List.length_append]; exact hroom)
      · rw [List.length_append, List.length_singleton] at hend
        rw [hend, ascii_neg hm]
        refine if_congr ?_ rfl rfl
        rw [← hlen]
        exact Nat.succ_lt_succ_iff.trans Nat.lt_succ_iff
      · rcases List.mem_append.1 hc with h | h
        · exact lowFirst_ne_zero h
        · rw [List.mem_singleton.1 h]
          decide
    · rw [printiPut_none 45 (Nat.not_lt.1 hroom), if_neg]
      · rfl
      · rw [← hlen]
        exact fun h => hroom (h.trans_lt (by decide))
  · rw [printiDigits_overflow m (Nat.not_le.1 hbuf), if_neg]
    · rfl
    · rw [← hlen]
      exact fun h => hbuf (h.trans (by decide))

theorem printi_pos (buf : Chars) {m : Nat} (hm : m ≠ 0) :
    printi buf m = if m < 10 ^ 9 then some (ascii (toString m)) else none := by
  have hlen := length_lowFirst_le (n := m) (k := 9)
  unfold printi
  rw [decide_eq_false (by omega)]
  simp only [Bool.false_eq_true, if_false, Option.bind_eq_bind, Option.bind_some, Int.toNat_natCast]
  by_cases hbuf : (lowFirst m).length ≤ printiLen
  · obtain ⟨buf', hrun, hholds⟩ := printiDigits_run buf m hbuf
    rw [hrun, Option.bind_some, if_neg (length_ne_zero hm), Option.bind_some,
      printiEnd_eq hholds (fun c hc => lowFirst_ne_zero hc) hbuf, reverse_lowFirst hm]
    refine if_congr ?_ rfl rfl
    rw [← hlen]
    exact Nat.lt_succ_iff
  · rw [printiDigits_overflow m (Nat.not_le.1 hbuf), if_neg]
    · rfl
    · rw [← hlen]
      exact fun h => hbuf (h.trans (by decide))

/-- `printi` prints the decimal representation of the numbers from `-99999999` to `999999999`; the other numbers overflow
its buffer, and the least `int` has no opposite. -/
theorem printi_eq (buf : Chars) (n : Int) :
    printi buf n = if -10 ^ 8 < n ∧ n < 10 ^ 9 then some (ascii (toString n)) else none := by
  rcases lt_trichotomy n 0 with hn | rfl | hn
  · obtain ⟨m, rfl⟩ : ∃ m : Nat, n = -m := ⟨n.natAbs, by omega⟩
    rw [printi_neg buf (by omega)]
    refine if_congr ?_ rfl rfl
    omega
  · exact printiEnd_eq ((holds_nil buf).store 48) (by decide) (by decide)
  · obtain ⟨m, rfl⟩ : ∃ m : Nat, n = m := ⟨n.natAbs, by omega⟩
    rw [printi_pos buf (by omega)]
    refine if_congr ?_ rfl rfl
    omega
/-- **`printi`** prints the decimal representation of the numbers from `-99999999` to `999999999`; the other numbers
overflow its buffer, and the least `int` has no opposite. -/
theorem printi_decimal (buf : Chars) (n : Int) (text : List (BitVec 8)) :
    printi buf n = some text ↔ -10 ^ 8 < n ∧ n < 10 ^ 9 ∧ text = ascii (toString n) := by
  rw [printi_eq]
  split
  · rename_i h
    rw [Option.some_inj, eq_comm]
    exact ⟨fun heq => ⟨h.1, h.2, heq⟩, fun heq => heq.2.2⟩
  · rename_i h
    exact ⟨nofun, fun heq => absurd ⟨heq.1, heq.2.1⟩ h⟩

/-! ### The primes -/

variable {len size i j n : Nat} {data : Chars}

theorem sieveFill_eq (h : i + n ≤ len) :
    sieveFill len n i data = some fun k => if i ≤ k ∧ k < i + n then 1 else data k := by
  induction n generalizing i data with
  | zero =>
    refine congrArg some (funext fun k => (if_neg ?_).symm)
    omega
  | succ n ih =>
    unfold sieveFill storeChar
    rw [if_pos (by omega), Option.bind_eq_bind, Option.bind_some, ih (by omega)]
    refine congrArg some (funext fun k => ?_)
    by_cases hk : k = i
    · subst hk
      simp
    · rw [Function.update_of_ne hk]
      refine if_congr ?_ rfl rfl
      omega

/-- The inner loop crosses out the numbers `j`, `j + i` and so on. -/
theorem sieveCross_eq {fuel : Nat} (hi : 0 < i) (hlen : size ≤ len) (hmax : size + i ≤ 2 ^ 31) (hpos : 0 < fuel)
    (hfuel : size < j + fuel) :
    sieveCross len size i fuel j data = some fun k => if j ≤ k ∧ k < size ∧ i ∣ k - j then 0 else data k := by
  induction fuel generalizing j data with
  | zero => omega
  | succ fuel ih =>
    unfold sieveCross
    split
    · rename_i hj
      unfold storeChar addInt
      rw [if_pos (by omega), Option.bind_eq_bind, Option.bind_some, if_pos (by omega), Option.bind_eq_bind, Option.bind_some,
        ih (by omega) (by omega)]
      refine congrArg some (funext fun k => ?_)
      by_cases hk : k = j
      · subst hk
        simp [hj]
      · rw [Function.update_of_ne hk]
        refine if_congr ?_ rfl rfl
        -- the multiples from `j` on, without `j` itself
        constructor
        · rintro ⟨h1, h2, c, hc⟩
          exact ⟨by omega, h2, c + 1, by rw [Nat.mul_succ]; omega⟩
        · rintro ⟨h1, h2, c, hc⟩
          match c with
          | 0 => omega
          | c + 1 =>
            rw [Nat.mul_succ] at hc
            exact ⟨by omega, h2, c, by omega⟩
    · rename_i hj
      refine congrArg some (funext fun k => (if_neg ?_).symm)
      omega

/-- What the array holds when it is the turn of `k`. -/
structure SieveInv (size k : Nat) (before data : Chars) : Prop where
  marks : ∀ j < size, data j = 1 ∧ Survives k j ∨ data j = 0 ∧ ¬Survives k j
  rest : ∀ j, size ≤ j → data j = before j

theorem SieveInv.step_prime {before : Chars} {k : Nat} (h : SieveInv size k before data) (hk : k.Prime) :
    SieveInv size (k + 1) before fun j => if k * 2 ≤ j ∧ j < size ∧ k ∣ j - k * 2 then 0 else data j where
  marks j hj := by
    have hdvd : k * 2 ≤ j → (k ∣ j - k * 2 ↔ k ∣ j) := fun hle => by
      rw [Nat.dvd_sub_iff_left hle (Nat.dvd_mul_right k 2)]
    rw [survives_succ_of_prime hk]
    by_cases hc : k * 2 ≤ j ∧ j < size ∧ k ∣ j - k * 2
    · right
      rw [if_pos hc]
      exact ⟨rfl, fun hs => hs.2 ⟨(hdvd hc.1).1 hc.2.2, by omega⟩⟩
    · rw [if_neg hc]
      have hnot : ¬(k ∣ j ∧ 2 * k ≤ j) := fun hs => hc ⟨by omega, hj, (hdvd (by omega)).2 hs.1⟩
      rcases h.marks j hj with ⟨hd, hs⟩ | ⟨hd, hs⟩
      · exact Or.inl ⟨hd, hs, hnot⟩
      · exact Or.inr ⟨hd, fun hs' => hs hs'.1⟩
  rest j hj := by
    rw [if_neg (by omega)]
    exact h.rest j hj

theorem SieveInv.step_not_prime {before : Chars} {k : Nat} (h : SieveInv size k before data) (hk : ¬k.Prime) :
    SieveInv size (k + 1) before data where
  marks j hj := by
    rw [survives_succ_of_not_prime hk]
    exact h.marks j hj
  rest := h.rest

/-- The outer loop. -/
theorem sieveCount_eq {before : Chars} {r : Nat} (hlen : size ≤ len) (hmax : size ≤ 2 ^ 30) (hi : 2 ≤ i) (hn : i + n = size)
    (h : SieveInv size i before data) (hr : r = Nat.primeCounting' i) :
    ∃ data', sieveCount len size n i r data = some (Nat.primeCounting' size, data') ∧ SieveInv size size before data' := by
  induction n generalizing i r data with
  | zero =>
    obtain rfl : i = size := hn
    exact ⟨data, by rw [hr]; rfl, h⟩
  | succ n ih =>
    have hsucc : Nat.primeCounting' (i + 1) = r + if i.Prime then 1 else 0 := by
      rw [hr]
      exact Nat.count_succ ..
    unfold sieveCount loadChar
    rw [if_pos (by omega), Option.bind_eq_bind, Option.bind_some]
    rcases h.marks i (by omega) with ⟨hd, hs⟩ | ⟨hd, hs⟩
    · rw [survives_self hi] at hs
      rw [if_pos (by rw [hd]; decide)]
      unfold mulInt
      rw [if_pos (by omega), Option.bind_eq_bind, Option.bind_some,
        sieveCross_eq (by omega) hlen (by omega) (by omega) (by omega), Option.bind_eq_bind, Option.bind_some]
      exact ih (by omega) (by omega) (h.step_prime hs) (by rw [hsucc, if_pos hs])
    · rw [survives_self hi] at hs
      rw [if_neg (by rw [hd]; decide)]
      exact ih (by omega) (by omega) (h.step_not_prime hs) (by rw [hsucc, if_neg hs]; rfl)

/-- **The sieve.**  It returns the number of primes below `size`, and marks them; up to `2 ^ 30` no `int` overflows. -/
theorem sieve_primes (hlen : size ≤ len) (h2 : 2 ≤ size) (hmax : size ≤ 2 ^ 30) (data : Chars) :
    ∃ data', sieve len data size = some (Nat.primeCounting' size, data') ∧
      (∀ j < size, data' j = if j.Prime then 1 else 0) ∧ ∀ j, size ≤ j → data' j = data j := by
  unfold sieve storeChar
  rw [sieveFill_eq (by omega), Option.bind_eq_bind, Option.bind_some, if_pos (by omega), Option.bind_some,
    if_pos (by omega), Option.bind_some]
  have hinv : SieveInv size 2 data (Function.update (Function.update
      (fun k => if 0 ≤ k ∧ k < 0 + size then 1 else data k) 1 0) 0 0) := by
    refine ⟨fun j hj => ?_, fun j hj => ?_⟩
    · rw [survives_two]
      match j with
      | 0 => exact Or.inr ⟨rfl, by omega⟩
      | 1 => exact Or.inr ⟨rfl, by omega⟩
      | j + 2 => exact Or.inl ⟨by simp [hj], by omega⟩
    · rw [Function.update_of_ne (by omega), Function.update_of_ne (by omega), if_neg (by omega)]
  obtain ⟨data', hrun, hend⟩ := sieveCount_eq (n := size - 2) (r := 0) hlen hmax le_rfl (by omega) hinv (by decide)
  refine ⟨data', hrun, fun j hj => ?_, hend.rest⟩
  rcases hend.marks j hj with ⟨hd, hs⟩ | ⟨hd, hs⟩
  · rw [survives_of_lt hj] at hs
    rw [hd, if_pos hs]
  · rw [survives_of_lt hj] at hs
    rw [hd, if_neg hs]

theorem primeCounting'_le (h : size ≤ 2 ^ 30) : Nat.primeCounting' size < 10 ^ 9 := by
  have hadd := Nat.primeCounting'_add_le (a := 2) (k := 3) (by decide) (by decide) size
  have hmono := Nat.monotone_primeCounting' (Nat.le_add_left size 3)
  have h3 : Nat.primeCounting' 3 = 1 := by decide
  have h2 : Nat.totient 2 = 1 := by decide
  rw [h3, h2] at hadd
  omega

theorem ascii_append (s t : String) : ascii (s ++ t) = ascii s ++ ascii t := by
  unfold ascii
  rw [String.toList_append, List.map_append]

/-- **`test_sieve`** prints the number of primes below `size` and marks them in the array. -/
theorem testSieve_primes (hlen : size ≤ len) (h2 : 2 ≤ size) (hmax : size ≤ 2 ^ 30) (stack : Chars) (msg : String)
    (data : Chars) :
    ∃ data', testSieve stack msg len data size =
        some (ascii (msg ++ ": " ++ toString (Nat.primeCounting' size) ++ "\n"), data') ∧
      (∀ j < size, data' j = if j.Prime then 1 else 0) ∧ ∀ j, size ≤ j → data' j = data j := by
  obtain ⟨data', hrun, hmarks, hrest⟩ := sieve_primes hlen h2 hmax data
  refine ⟨data', ?_, hmarks, hrest⟩
  have hlt := primeCounting'_le hmax
  unfold testSieve
  simp only [Option.bind_eq_bind]
  rw [hrun, Option.bind_some]
  dsimp only
  rw [printi_eq, if_pos (by omega), Option.bind_some, ascii_append, ascii_append, ascii_append]
  rfl

theorem testSieve_primes_hundred : ∃ data', testSieve (fun _ => 7) "static" 100 (fun _ => 9) 100 =
      some (ascii ("static" ++ ": " ++ toString (Nat.primeCounting' 100) ++ "\n"), data') ∧
    (∀ j < 100, data' j = if j.Prime then 1 else 0) ∧ ∀ j, 100 ≤ j → data' j = 9 :=
  testSieve_primes le_rfl (by decide) (by decide) _ _ fun _ => 9

end LearnKvm
