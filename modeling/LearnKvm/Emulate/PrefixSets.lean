import LearnKvm.Emulate.RepStrings

/-!
# Prefixes as a set (`x86_emulate.c`)

Where the prefixes 66 and 67 do not occur an even number of times, the sizes that the decoder uses are those of the set of
prefixes, and two instructions that differ by repeated prefixes, or by the order of prefixes of different groups, have the
same effects (`emulate_prefixes`).  The prefix loop toggles the sizes, so a second 66 takes the first one back.
-/

namespace LearnKvm

open Calls

variable {arch : Arch} {σ τ : Type}

/-! ### Sizes and prefixes -/

/-- The operand size by REX.W and the prefix 66. -/
def operandSize (mode : X86EmulMode) (wide override : Bool) : Nat :=
  if wide then 8
  else match mode with
    | .real | .prot16 => if override then 4 else 2
    | .prot32 | .prot64 => if override then 2 else 4

/-- The address size by the prefix 67. -/
def addressSize (mode : X86EmulMode) (override : Bool) : Nat :=
  match mode with
  | .real | .prot16 => if override then 4 else 2
  | .prot32 => if override then 2 else 4
  | .prot64 => if override then 4 else 8

/-- The groups of the legacy prefixes. -/
def prefixGroup (b : BitVec 8) : Nat :=
  if b = 0xf0 ∨ b = 0xf2 ∨ b = 0xf3 then 1
  else if (prefixSegment b).isSome then 2
  else if b = 0x66 then 3
  else if b = 0x67 then 4
  else 0

/-- A prefix is repeated, or two neighbours of different groups are exchanged. -/
inductive PrefixStep : List (BitVec 8) → List (BitVec 8) → Prop where
  | again (l₁ l₂ : List (BitVec 8)) (b : BitVec 8) : PrefixStep (l₁ ++ b :: l₂) (l₁ ++ b :: b :: l₂)
  | swap (l₁ l₂ : List (BitVec 8)) {a b : BitVec 8} (hne : prefixGroup a ≠ prefixGroup b) :
    PrefixStep (l₁ ++ a :: b :: l₂) (l₁ ++ b :: a :: l₂)

/-- The same context at another instruction. -/
def X86EmulateCtxt.atRip (ctxt : X86EmulateCtxt arch) (rip : ULong arch) : X86EmulateCtxt arch := { ctxt with rip := rip }

namespace Encoding

def wide (e : Encoding) : Bool := e.rexBits.rexPrefix &&& 8 != 0

/-- The sizes that the decoder finds for an instruction are those of the set of its prefixes. -/
def SizesBySet (h : (c : OpCall arch) → σ → OpReply arch c × σ) (ctxt : X86EmulateCtxt arch) (s : σ) (e : Encoding) :
    Prop :=
  ∃ p rex, ((decodePrefixes ctxt).run h s).result = .ok (p, rex) ∧
    p.opBytes = operandSize ctxt.mode e.wide (decide (0x66 ∈ e.legacy)) ∧
    p.adBytes = addressSize ctxt.mode (decide (0x67 ∈ e.legacy))

/-- The prefixes 66 and 67 do not occur an even number of times, unless REX.W overrides 66. -/
structure OddOverrides (e : Encoding) : Prop where
  op : e.wide = false → 0x66 ∈ e.legacy → Odd (e.legacy.count 0x66)
  ad : 0x67 ∈ e.legacy → Odd (e.legacy.count 0x67)

/-- The instructions differ by the repetition and the order of their prefixes only. -/
structure SamePrefixes (e e' : Encoding) : Prop where
  legacy : Relation.EqvGen PrefixStep e.legacy e'.legacy
  rex : e.rex = e'.rex
  twobyte : e.twobyte = e'.twobyte
  opcode : e.opcode = e'.opcode

/-- What a call does behind the opcode. -/
def rest (cpu : HostCpu arch) (hasCmpxchg8b : Bool) (ctxt : X86EmulateCtxt arch) (e : Encoding) : Emul arch (Exec arch) :=
  e.decodeRest ctxt >>= executeAndWriteback cpu hasCmpxchg8b ctxt

end Encoding

/-- Two calls return the same code, leave the same registers and flags, and make the same accesses. -/
structure SameEffects (h : (c : OpCall arch) → σ → OpReply arch c × σ) (h' : (c : OpCall arch) → τ → OpReply arch c × τ)
    (cpu : HostCpu arch) (hasCmpxchg8b : Bool) (ctxt ctxt' : X86EmulateCtxt arch) (s : σ) (s' : τ) : Prop where
  code : (x86EmulateMemop h cpu hasCmpxchg8b ctxt s).1 = (x86EmulateMemop h' cpu hasCmpxchg8b ctxt' s').1
  regs : (x86EmulateMemop h cpu hasCmpxchg8b ctxt s).2.1.regs = (x86EmulateMemop h' cpu hasCmpxchg8b ctxt' s').2.1.regs
  eflags : (x86EmulateMemop h cpu hasCmpxchg8b ctxt s).2.1.eflags = (x86EmulateMemop h' cpu hasCmpxchg8b ctxt' s').2.1.eflags
  accesses : accesses ((emulate cpu hasCmpxchg8b ctxt).run h s).trace =
    accesses ((emulate cpu hasCmpxchg8b ctxt').run h' s').trace

/-! ### The sizes -/

section

variable {mode : X86EmulMode}

theorem toggle_foldl {f : Nat → Nat} (hf : ∀ n, f (f n) = n) (b : BitVec 8) (l : List (BitVec 8)) (n : Nat) :
    l.foldl (fun n c => if c = b then f n else n) n = if Odd (l.count b) then f n else n := by
  induction l generalizing n with
  | nil => simp
  | cons c l ih =>
    rw [List.foldl_cons, ih]
    by_cases hc : c = b
    · rw [if_pos hc, hc, List.count_cons_self]
      by_cases hodd : Odd (l.count b)
      · rw [if_pos hodd, if_neg fun hno => Nat.odd_add_one.1 hno hodd, hf]
      · rw [if_neg hodd, if_pos (Nat.odd_add_one.2 hodd)]
    · rw [if_neg hc, List.count_cons_of_ne hc]

theorem foldl_opBytes (l : List (BitVec 8)) (p : Prefixes arch) :
    (l.foldl (Prefixes.apply mode) p).opBytes = if Odd (l.count 0x66) then p.opBytes ^^^ 6 else p.opBytes := by
  have hfold : (l.foldl (Prefixes.apply mode) p).opBytes =
      l.foldl (fun n c => if c = 0x66 then n ^^^ 6 else n) p.opBytes := by
    induction l generalizing p with
    | nil => rfl
    | cons c l ih => exact ih (p.apply mode c)
  rw [hfold, toggle_foldl (f := fun n => n ^^^ 6) fun n => by rw [Nat.xor_assoc, Nat.xor_self, Nat.xor_zero]]

theorem foldl_adBytes (l : List (BitVec 8)) (p : Prefixes arch) :
    (l.foldl (Prefixes.apply mode) p).adBytes =
      if Odd (l.count 0x67) then p.adBytes ^^^ (if mode = .prot64 then 12 else 6) else p.adBytes := by
  have hfold : (l.foldl (Prefixes.apply mode) p).adBytes =
      l.foldl (fun n c => if c = 0x67 then n ^^^ (if mode = .prot64 then 12 else 6) else n) p.adBytes := by
    induction l generalizing p with
    | nil => rfl
    | cons c l ih => exact ih (p.apply mode c)
  rw [hfold, toggle_foldl (f := fun n => n ^^^ (if mode = .prot64 then 12 else 6))
    fun n => by rw [Nat.xor_assoc, Nat.xor_self, Nat.xor_zero]]

variable {sizes : Nat × Nat} {e : Encoding}

/-- A toggle is as good as the set exactly if it is made an odd number of times, if at all. -/
theorem toggled_iff {b : BitVec 8} {l : List (BitVec 8)} {m n : Nat} (hne : m ≠ n) :
    (if Odd (l.count b) then m else n) = (if b ∈ l then m else n) ↔ (b ∈ l → Odd (l.count b)) := by
  by_cases hodd : Odd (l.count b)
  · have hmem : b ∈ l := List.count_pos_iff.1 hodd.pos
    rw [if_pos hodd, if_pos hmem]
    exact iff_of_true rfl fun _ => hodd
  · rw [if_neg hodd]
    by_cases hmem : b ∈ l
    · rw [if_pos hmem]
      exact iff_of_false hne.symm fun hno => hodd (hno hmem)
    · rw [if_neg hmem]
      exact iff_of_true rfl fun hno => absurd hno hmem

theorem operandSize_narrow (hs : modeBytes arch mode = some sizes) (override : Bool) :
    operandSize mode false override = if override then sizes.1 ^^^ 6 else sizes.1 := by
  cases mode with
  | prot64 =>
    unfold modeBytes at hs
    dsimp only at hs
    split at hs
    · cases hs
      cases override <;> rfl
    · cases hs
  | _ =>
    cases hs
    cases override <;> rfl

theorem addressSize_eq (hs : modeBytes arch mode = some sizes) (override : Bool) :
    addressSize mode override = if override then sizes.2 ^^^ (if mode = .prot64 then 12 else 6) else sizes.2 := by
  cases mode with
  | prot64 =>
    unfold modeBytes at hs
    dsimp only at hs
    split at hs
    · cases hs
      cases override <;> rfl
    · cases hs
  | _ =>
    cases hs
    cases override <;> rfl

theorem toggles_ne (hs : modeBytes arch mode = some sizes) :
    sizes.1 ^^^ 6 ≠ sizes.1 ∧ sizes.2 ^^^ (if mode = .prot64 then 12 else 6) ≠ sizes.2 := by
  cases mode with
  | prot64 =>
    unfold modeBytes at hs
    dsimp only at hs
    split at hs
    · cases hs
      decide
    · cases hs
  | _ =>
    cases hs
    decide

theorem start_sizes (hs : modeBytes arch mode = some sizes) :
    (Encoding.start arch mode).opBytes = sizes.1 ∧ (Encoding.start arch mode).adBytes = sizes.2 := by
  unfold Encoding.start
  rw [hs]
  exact ⟨rfl, rfl⟩

theorem prefixes_opBytes (hs : modeBytes arch mode = some sizes) (eip : ULong arch) :
    (e.prefixes mode eip).opBytes = operandSize mode e.wide (decide (0x66 ∈ e.legacy)) ↔
      (e.wide = false → 0x66 ∈ e.legacy → Odd (e.legacy.count 0x66)) := by
  have hcode : (e.prefixes mode eip).opBytes = if e.rexBits.rexPrefix &&& 8 ≠ 0 then 8
      else (e.legacy.foldl (Prefixes.apply mode) (Encoding.start arch mode)).opBytes := rfl
  rw [hcode, foldl_opBytes, (start_sizes hs).1]
  by_cases hwide : e.rexBits.rexPrefix &&& 8 = 0
  · have hnarrow : e.wide = false := bne_eq_false_iff_eq.2 hwide
    rw [if_neg (not_not_intro hwide), hnarrow, operandSize_narrow hs]
    simp only [decide_eq_true_eq, true_imp_iff]
    exact toggled_iff (toggles_ne hs).1
  · have hset : e.wide = true := bne_iff_ne.2 hwide
    rw [if_pos hwide, hset]
    exact iff_of_true rfl fun hno => by cases hno

theorem prefixes_adBytes (hs : modeBytes arch mode = some sizes) (eip : ULong arch) :
    (e.prefixes mode eip).adBytes = addressSize mode (decide (0x67 ∈ e.legacy)) ↔
      (0x67 ∈ e.legacy → Odd (e.legacy.count 0x67)) := by
  have hcode : (e.prefixes mode eip).adBytes =
      (e.legacy.foldl (Prefixes.apply mode) (Encoding.start arch mode)).adBytes := rfl
  rw [hcode, foldl_adBytes, (start_sizes hs).2, addressSize_eq hs]
  simp only [decide_eq_true_eq]
  exact toggled_iff (toggles_ne hs).2

/-- The sizes of the prefix loop are those of the set. -/
theorem prefixes_bySet (hs : modeBytes arch mode = some sizes) (eip : ULong arch) :
    ((e.prefixes mode eip).opBytes = operandSize mode e.wide (decide (0x66 ∈ e.legacy)) ∧
      (e.prefixes mode eip).adBytes = addressSize mode (decide (0x67 ∈ e.legacy))) ↔ e.OddOverrides := by
  rw [prefixes_opBytes hs, prefixes_adBytes hs]
  exact ⟨fun hboth => ⟨hboth.1, hboth.2⟩, fun hodd => ⟨hodd.op, hodd.ad⟩⟩

theorem sizesBySet_iff {h : (c : OpCall arch) → σ → OpReply arch c × σ} {ctxt : X86EmulateCtxt arch} {s t : σ}
    (hm : HostMode arch ctxt.mode) (he : e.Valid ctxt.mode) (hlen : e.legacy.length < 8)
    (hat : FetchesTo h (ctxt.rip + ctxt.csBase) e.bytes s t) : e.SizesBySet h ctxt s ↔ e.OddOverrides := by
  obtain ⟨sizes, hs⟩ := hm.sizes
  obtain ⟨v, ⟨hresult, -⟩, -⟩ := prefixes_returns hm he hlen hat
  rw [← prefixes_bySet hs (ctxt.rip + BitVec.ofNat _ e.headLength)]
  constructor
  · rintro ⟨p, rex, hp, hsizes⟩
    rw [hresult] at hp
    cases hp
    exact hsizes
  · exact fun hsizes => ⟨_, _, hresult, hsizes⟩

/-! ### The other effects of prefixes -/

section

variable {l l' : List (BitVec 8)}

/-- What every step keeps is kept. -/
theorem samePrefixes_value {α : Type} {f : List (BitVec 8) → α} (hf : ∀ {l l'}, PrefixStep l l' → f l = f l')
    (hl : Relation.EqvGen PrefixStep l l') : f l = f l' :=
  (eq_equivalence.comap f).eqvGen_iff.1 (hl.mono fun _ _ hstep => hf hstep)

theorem PrefixStep.mem (hl : PrefixStep l l') (b : BitVec 8) : b ∈ l ↔ b ∈ l' := by
  cases hl with
  | again l₁ l₂ c => simp
  | swap l₁ l₂ hne =>
    simp only [List.mem_append, List.mem_cons]
    exact or_congr_right or_left_comm

theorem prefixGroup_segment (b : BitVec 8) (hb : (prefixSegment b).isSome = true) : prefixGroup b = 2 := by
  have hlock : ¬(b = 0xf0 ∨ b = 0xf2 ∨ b = 0xf3) := by
    rintro (rfl | rfl | rfl) <;> cases hb
  unfold prefixGroup
  rw [if_neg hlock, if_pos hb]

/-- Of two prefixes of different groups one is no segment override. -/
theorem segment_of_groups {a b : BitVec 8} (hne : prefixGroup a ≠ prefixGroup b) :
    prefixSegment a = none ∨ prefixSegment b = none := by
  by_cases ha : (prefixSegment a).isSome = true
  · by_cases hb : (prefixSegment b).isSome = true
    · exact absurd ((prefixGroup_segment a ha).trans (prefixGroup_segment b hb).symm) hne
    · exact Or.inr (Option.not_isSome_iff_eq_none.1 hb)
  · exact Or.inl (Option.not_isSome_iff_eq_none.1 ha)

theorem PrefixStep.segment (hl : PrefixStep l l') :
    (l.filterMap prefixSegment).getLast? = (l'.filterMap prefixSegment).getLast? := by
  cases hl with
  | again l₁ l₂ c =>
    cases hc : prefixSegment c with
    | none => simp [List.filterMap_append, hc]
    | some seg => simp [List.filterMap_append, hc, List.getLast?_append, List.getLast?_cons]
  | swap l₁ l₂ hne =>
    rcases segment_of_groups hne with ha | hb
    · simp [List.filterMap_append, List.filterMap_cons, ha]
    · simp [List.filterMap_append, List.filterMap_cons, hb]

end

variable {e' : Encoding}

theorem Encoding.SamePrefixes.mem (hsame : e.SamePrefixes e') (b : BitVec 8) : b ∈ e.legacy ↔ b ∈ e'.legacy :=
  (samePrefixes_value (f := fun l => b ∈ l) (fun hl => propext (hl.mem b)) hsame.legacy).to_iff

theorem foldl_flags (mode : X86EmulMode) (l : List (BitVec 8)) (p : Prefixes arch) :
    (l.foldl (Prefixes.apply mode) p).lockPrefix = (p.lockPrefix || decide (0xf0 ∈ l)) ∧
      (l.foldl (Prefixes.apply mode) p).repPrefix = (p.repPrefix || decide (0xf3 ∈ l)) := by
  induction l generalizing p with
  | nil => simp
  | cons c l ih =>
    obtain ⟨hlock, hrep⟩ := ih (p.apply mode c)
    have hcons : ∀ b : BitVec 8, (c == b || decide (b ∈ l)) = decide (b ∈ c :: l) := by
      intro b
      by_cases hcb : c = b
      · simp [hcb]
      · simp [hcb, Ne.symm hcb]
    rw [List.foldl_cons, hlock, hrep]
    constructor
    · show (p.lockPrefix || c == 0xf0 || decide (0xf0 ∈ l)) = _
      rw [Bool.or_assoc, hcons]
    · show (p.repPrefix || c == 0xf3 || decide (0xf3 ∈ l)) = _
      rw [Bool.or_assoc, hcons]

/-- Encodings that differ by the repetition and the order of prefixes have the same prefixes, if the sizes are those of
the set. -/
theorem prefixes_same (hs : modeBytes arch mode = some sizes) (hsame : e.SamePrefixes e') (hodd : e.OddOverrides)
    (hodd' : e'.OddOverrides) (eip : ULong arch) : e.prefixes mode eip = e'.prefixes mode eip := by
  have hrex : e.rexBits = e'.rexBits := by
    unfold Encoding.rexBits
    rw [hsame.rex]
  have hfirst : e.first = e'.first := by
    unfold Encoding.first
    rw [hsame.twobyte, hsame.opcode]
  have hwide : e.wide = e'.wide := by
    unfold Encoding.wide
    rw [hrex]
  have hdecide : ∀ b : BitVec 8, decide (b ∈ e.legacy) = decide (b ∈ e'.legacy) :=
    fun b => decide_eq_decide.2 (hsame.mem b)
  obtain ⟨hop, had⟩ := (prefixes_bySet hs eip).2 hodd
  obtain ⟨hop', had'⟩ := (prefixes_bySet hs eip).2 hodd'
  obtain ⟨hlock, hrep⟩ := foldl_flags mode e.legacy (Encoding.start arch mode)
  obtain ⟨hlock', hrep'⟩ := foldl_flags mode e'.legacy (Encoding.start arch mode)
  have hsegment : e.segment = e'.segment := samePrefixes_value (fun hl => hl.segment) hsame.legacy
  have hb : (e.prefixes mode eip).b = (e'.prefixes mode eip).b := hfirst
  have hopBytes : (e.prefixes mode eip).opBytes = (e'.prefixes mode eip).opBytes := by
    rw [hop, hop', hwide, hdecide]
  have hadBytes : (e.prefixes mode eip).adBytes = (e'.prefixes mode eip).adBytes := by
    rw [had, had', hdecide]
  have hbase : (e.prefixes mode eip).overrideBase = (e'.prefixes mode eip).overrideBase := by
    rw [Encoding.prefixes_overrideBase, Encoding.prefixes_overrideBase, hsegment]
  have hlockBoth : (e.prefixes mode eip).lockPrefix = (e'.prefixes mode eip).lockPrefix :=
    hlock.trans ((congrArg _ (hdecide 0xf0)).trans hlock'.symm)
  have hrepBoth : (e.prefixes mode eip).repPrefix = (e'.prefixes mode eip).repPrefix :=
    hrep.trans ((congrArg _ (hdecide 0xf3)).trans hrep'.symm)
  have hext : ∀ p q : Prefixes arch, p.b = q.b → p.opBytes = q.opBytes → p.adBytes = q.adBytes →
      p.overrideBase = q.overrideBase → p.lockPrefix = q.lockPrefix → p.repPrefix = q.repPrefix → p.eip = q.eip → p = q := by
    rintro ⟨⟩ ⟨⟩ rfl rfl rfl rfl rfl rfl rfl
    rfl
  exact hext _ _ hb hopBytes hadBytes hbase hlockBoth hrepBoth rfl

end

/-! ### The instruction pointer -/

section

variable {ctxt : X86EmulateCtxt arch} {i : Insn arch}

/-- The body of a string instruction. -/
def stringBody (ctxt : X86EmulateCtxt arch) (i : Insn arch) (x : Exec arch) : Emul arch (Exec arch) :=
  if inCase i.b 0xa4 0xa5 then movs ctxt i x
  else if inCase i.b 0xa6 0xa7 then .fail .cannotEmulate
  else if inCase i.b 0xaa 0xab then .ret (stos i x)
  else if inCase i.b 0xac 0xad then lods i x
  else if inCase i.b 0xae 0xaf then .fail .cannotEmulate
  else .ret x

theorem specialInsn_eq (ctxt : X86EmulateCtxt arch) (i : Insn arch) :
    specialInsn ctxt i = repeatInsn ctxt i (specialExec ctxt i) >>= stringBody ctxt i := rfl

/-- A string instruction does not look at the shadow instruction pointer. -/
theorem stringBody_eip (x : Exec arch) (eip : ULong arch) :
    stringBody ctxt i { x with eip := eip } = stringBody ctxt i x >>= fun y => .ret { y with eip := eip } := by
  unfold stringBody
  split
  · rw [movs_eq, movs_eq, Prog.bind_assoc]
    rfl
  · split
    · rfl
    · split
      · rfl
      · split
        · unfold lods
          rw [Prog.bind_assoc]
          rfl
        · split <;> rfl

theorem writeback_setEip (x : Exec arch) (eip : ULong arch) :
    writeback { x with eip := eip } = writeback x >>= fun y => .ret { y with eip := eip } := by
  unfold writeback
  dsimp only
  split
  · cases x.dst.ptr with
    | reg ptr => rfl
    | mem addr =>
      dsimp only
      by_cases hlock : x.lockPrefix = true
      · rw [if_pos hlock, if_pos hlock, Prog.bind_assoc]
        rfl
      · rw [if_neg hlock, if_neg hlock, Prog.bind_assoc]
        rfl
    | imm => rfl
  · rfl

/-- The shadow instruction pointer of a call that began at another RIP. -/
def movedRip (i : Insn arch) (rip : ULong arch) (x : Exec arch) : Exec arch :=
  if i.d &&& dstMask = implicitOps ∧ i.twobyte = false ∧ i.repPrefix = true then { x with eip := rip } else x

theorem executeAndWriteback_repeated (cpu : HostCpu arch) (hasCmpxchg8b : Bool) (ctxt : X86EmulateCtxt arch)
    {i : Insn arch} (rip : ULong arch) (hspecial : i.d &&& dstMask = implicitOps) (honebyte : i.twobyte = false)
    (hrepeat : i.repPrefix = true) : executeAndWriteback cpu hasCmpxchg8b (ctxt.atRip rip) i =
      executeAndWriteback cpu hasCmpxchg8b ctxt i >>= fun x => .ret { x with eip := rip } := by
  have hexec : ∀ c : X86EmulateCtxt arch, execute cpu hasCmpxchg8b c i =
      repeatInsn c i (specialExec c i) >>= stringBody c i := by
    intro c
    unfold execute
    rw [if_pos hspecial, if_neg (by rw [honebyte]; exact Bool.false_ne_true), specialInsn_eq]
  unfold executeAndWriteback
  rw [hexec, hexec]
  unfold repeatInsn
  rw [if_pos hrepeat, if_pos hrepeat]
  by_cases hcount : ctxt.regs vcpuRegsRcx = 0#_
  · have hregs : (specialExec ctxt i).regs vcpuRegsRcx = 0#_ := hcount
    have hregs' : (specialExec (ctxt.atRip rip) i).regs vcpuRegsRcx = 0#_ := hcount
    rw [if_pos hregs, if_pos hregs']
    rfl
  · have hregs : ¬(specialExec ctxt i).regs vcpuRegsRcx = 0#_ := hcount
    have hregs' : ¬(specialExec (ctxt.atRip rip) i).regs vcpuRegsRcx = 0#_ := hcount
    rw [if_neg hregs, if_neg hregs']
    have hbody : stringBody (ctxt.atRip rip) i
        (countedExec (ctxt.atRip rip) i (ctxt.regs vcpuRegsRcx - 1#_)) =
          stringBody ctxt i (countedExec ctxt i (ctxt.regs vcpuRegsRcx - 1#_)) >>= fun y => .ret { y with eip := rip } :=
      stringBody_eip (countedExec ctxt i (ctxt.regs vcpuRegsRcx - 1#_)) rip
    show stringBody (ctxt.atRip rip) i (countedExec (ctxt.atRip rip) i (ctxt.regs vcpuRegsRcx - 1#_))
        >>= writeback =
      (stringBody ctxt i (countedExec ctxt i (ctxt.regs vcpuRegsRcx - 1#_)) >>= writeback) >>= fun x =>
        .ret { x with eip := rip }
    rw [hbody, Prog.bind_assoc, Prog.bind_assoc]
    refine congrArg _ (funext fun y => ?_)
    exact writeback_setEip y rip

/-- The address of the instruction is only used by a string instruction with REP, which sets RIP back. -/
theorem executeAndWriteback_rip (cpu : HostCpu arch) (hasCmpxchg8b : Bool) (ctxt : X86EmulateCtxt arch) (i : Insn arch)
    (rip : ULong arch) : executeAndWriteback cpu hasCmpxchg8b (ctxt.atRip rip) i =
      executeAndWriteback cpu hasCmpxchg8b ctxt i >>= fun x => .ret (movedRip i rip x) := by
  by_cases hrep : i.d &&& dstMask = implicitOps ∧ i.twobyte = false ∧ i.repPrefix = true
  · have hmoved : movedRip i rip = fun x => { x with eip := rip } := funext fun x => if_pos hrep
    rw [hmoved]
    exact executeAndWriteback_repeated cpu hasCmpxchg8b ctxt rip hrep.1 hrep.2.1 hrep.2.2
  · have hmoved : movedRip i rip = fun x => x := funext fun x => if_neg hrep
    rw [hmoved, Prog.bind_ret]
    unfold executeAndWriteback execute
    by_cases himplicit : i.d &&& dstMask = implicitOps
    · rw [if_pos himplicit, if_pos himplicit]
      cases ht : i.twobyte with
      | true => rfl
      | false =>
        have hno : ¬ i.repPrefix = true := fun hr => hrep ⟨himplicit, ht, hr⟩
        rw [if_neg Bool.false_ne_true, if_neg Bool.false_ne_true, specialInsn_eq, specialInsn_eq]
        unfold repeatInsn
        rw [if_neg hno, if_neg hno]
        rfl
    · rw [if_neg himplicit, if_neg himplicit]
      rfl

theorem decodeOperands_rip (ctxt : X86EmulateCtxt arch) (rip : ULong arch) (p : Prefixes arch) (rex : RexBits) (b : BitVec 8)
    (twobyte : Bool) :
    decodeOperands (ctxt.atRip rip) p rex b twobyte = decodeOperands ctxt p rex b twobyte := rfl

variable {e e' : Encoding}

/-- Behind the opcode two instructions that end at the same address are the same. -/
theorem rest_same (cpu : HostCpu arch) (hasCmpxchg8b : Bool) (ctxt : X86EmulateCtxt arch) (rip : ULong arch)
    (hm : HostMode arch ctxt.mode) (hsame : e.SamePrefixes e') (hodd : e.OddOverrides) (hodd' : e'.OddOverrides)
    (hend : rip + BitVec.ofNat _ e'.bytes.length = ctxt.rip + BitVec.ofNat _ e.bytes.length) :
    e'.rest cpu hasCmpxchg8b (ctxt.atRip rip) = e.decodeRest ctxt >>= fun i =>
      executeAndWriteback cpu hasCmpxchg8b ctxt i >>= fun x => .ret (movedRip i rip x) := by
  obtain ⟨sizes, hs⟩ := hm.sizes
  have hprefixes : e'.prefixesAt (ctxt.atRip rip) = e.prefixesAt ctxt := by
    show e'.prefixes ctxt.mode (rip + BitVec.ofNat _ e'.bytes.length) = _
    rw [hend]
    exact (prefixes_same hs hsame hodd hodd' _).symm
  have hd : e'.d = e.d := by
    unfold Encoding.d
    rw [hsame.twobyte, hsame.opcode]
  have hrex : e'.rexBits = e.rexBits := by
    unfold Encoding.rexBits
    rw [hsame.rex]
  have hdecode : e'.decodeRest (ctxt.atRip rip) = e.decodeRest ctxt := by
    unfold Encoding.decodeRest
    rw [hprefixes, hd, hrex, decodeOperands_rip, hsame.twobyte, hsame.opcode]
  unfold Encoding.rest
  rw [hdecode]
  exact congrArg _ (funext fun i => executeAndWriteback_rip cpu hasCmpxchg8b ctxt i rip)

end

/-! ### Two instructions -/

section

variable {h : (c : OpCall arch) → σ → OpReply arch c × σ} {h' : (c : OpCall arch) → τ → OpReply arch c × τ}
  {ctxt : X86EmulateCtxt arch} {e e' : Encoding} {s t : σ} {s' t' : τ}

theorem emulate_rest (cpu : HostCpu arch) (hasCmpxchg8b : Bool) (hm : HostMode arch ctxt.mode) (he : e.Valid ctxt.mode)
    (hlen : e.legacy.length < 8) (hat : FetchesTo h (ctxt.rip + ctxt.csBase) e.bytes s t) :
    SameRun ((emulate cpu hasCmpxchg8b ctxt).run h s) ((e.rest cpu hasCmpxchg8b ctxt).run h t) := by
  rw [emulate_eq]
  exact (decode_head hm he hlen hat).bind _

section

variable {cpu : HostCpu arch} {hasCmpxchg8b : Bool} {rip : ULong arch}
  (hacc : accesses ((emulate cpu hasCmpxchg8b ctxt).run h s).trace =
    accesses ((emulate cpu hasCmpxchg8b (ctxt.atRip rip)).run h' s').trace)

include hacc

theorem sameEffects_error {x : Exit arch} (hx : ((emulate cpu hasCmpxchg8b ctxt).run h s).result = .error x)
    (hx' : ((emulate cpu hasCmpxchg8b (ctxt.atRip rip)).run h' s').result = .error x) :
    SameEffects h h' cpu hasCmpxchg8b ctxt (ctxt.atRip rip) s s' := by
  constructor
  · show (ctxt.finish _).1 = ((ctxt.atRip rip).finish _).1
    rw [hx, hx']
    cases x with
    | done rc => cases rc <;> rfl
    | cannotEmulate => rfl
    | repDone eip => rfl
  · show (ctxt.finish _).2.regs = ((ctxt.atRip rip).finish _).2.regs
    rw [hx, hx']
    cases x with
    | done rc => cases rc <;> rfl
    | cannotEmulate => rfl
    | repDone eip => rfl
  · show (ctxt.finish _).2.eflags = ((ctxt.atRip rip).finish _).2.eflags
    rw [hx, hx']
    cases x with
    | done rc => cases rc <;> rfl
    | cannotEmulate => rfl
    | repDone eip => rfl
  · exact hacc

theorem sameEffects_ok {x y : Exec arch} (hx : ((emulate cpu hasCmpxchg8b ctxt).run h s).result = .ok x)
    (hy : ((emulate cpu hasCmpxchg8b (ctxt.atRip rip)).run h' s').result = .ok y) (hregs : y.regs = x.regs)
    (hflags : y.eflags = x.eflags) : SameEffects h h' cpu hasCmpxchg8b ctxt (ctxt.atRip rip) s s' := by
  constructor
  · show (ctxt.finish _).1 = ((ctxt.atRip rip).finish _).1
    rw [hx, hy]
    rfl
  · show (ctxt.finish _).2.regs = ((ctxt.atRip rip).finish _).2.regs
    rw [hx, hy]
    exact hregs.symm
  · show (ctxt.finish _).2.eflags = ((ctxt.atRip rip).finish _).2.eflags
    rw [hx, hy]
    exact hflags.symm
  · exact hacc

end

/-- **Prefixes as a set**: for two instructions that differ by the repetition and the order of prefixes of different groups,
that end at the same address, and whose accesses find the same replies, the sizes are those of the set of prefixes and the
effects are the same exactly if 66 and 67 occur an odd number of times in both, if they occur at all. -/
theorem emulate_prefixes (cpu : HostCpu arch) (hasCmpxchg8b : Bool) (rip : ULong arch) (hm : HostMode arch ctxt.mode)
    (he : e.Valid ctxt.mode) (he' : e'.Valid ctxt.mode) (hlen : e.legacy.length < 8) (hlen' : e'.legacy.length < 8)
    (hsame : e.SamePrefixes e')
    (hend : rip + BitVec.ofNat _ e'.bytes.length = ctxt.rip + BitVec.ofNat _ e.bytes.length)
    (hat : FetchesTo h (ctxt.rip + ctxt.csBase) e.bytes s t) (hat' : FetchesTo h' (rip + ctxt.csBase) e'.bytes s' t')
    (halike : (e.rest cpu hasCmpxchg8b ctxt).Alike h h' t t') :
    (e.SizesBySet h ctxt s ∧ e'.SizesBySet h' (ctxt.atRip rip) s' ∧
        SameEffects h h' cpu hasCmpxchg8b ctxt (ctxt.atRip rip) s s') ↔ e.OddOverrides ∧ e'.OddOverrides := by
  have hm' : HostMode arch (ctxt.atRip rip).mode := hm
  rw [sizesBySet_iff hm he hlen hat, sizesBySet_iff hm' he' hlen' hat']
  refine ⟨fun hall => ⟨hall.1, hall.2.1⟩, fun hodd => ⟨hodd.1, hodd.2, ?_⟩⟩
  obtain ⟨hodd, hodd'⟩ := hodd
  -- both calls are runs of what follows the opcode
  have hrun := emulate_rest cpu hasCmpxchg8b hm he hlen hat
  have hrun' := emulate_rest cpu hasCmpxchg8b hm' he' hlen' hat'
  rw [rest_same cpu hasCmpxchg8b ctxt rip hm hsame hodd hodd' hend] at hrun'
  obtain ⟨hresult, htrace⟩ := halike.run
  obtain ⟨hmap, herror, hok⟩ := Prog.run_bind_map h' (P := fun x y : Exec arch => y.regs = x.regs ∧ y.eflags = x.eflags)
    (e.decodeRest ctxt) (executeAndWriteback cpu hasCmpxchg8b ctxt) (g := fun i x => movedRip i rip x)
    (fun i x => by unfold movedRip; split <;> exact ⟨rfl, rfl⟩) t'
  have hacc : accesses ((emulate cpu hasCmpxchg8b ctxt).run h s).trace =
      accesses ((emulate cpu hasCmpxchg8b (ctxt.atRip rip)).run h' s').trace := by
    rw [hrun.accesses, hrun'.accesses, hmap]
    exact congrArg accesses htrace.symm
  have hres := hrun.result.trans hresult.symm
  cases hr : ((e.rest cpu hasCmpxchg8b ctxt).run h' t').result with
  | error x => exact sameEffects_error hacc (hres.trans hr) (hrun'.result.trans (herror x hr))
  | ok x =>
    obtain ⟨y, hy, hregs, hflags⟩ := hok x hr
    exact sameEffects_ok hacc (hres.trans hr) (hrun'.result.trans hy) hregs hflags

end

/-- `mov %ax, (%edi)` with some prefixes. -/
def movStore (legacy : List (BitVec 8)) : Encoding := ⟨legacy, none, false, 0x89⟩

def movStoreCode : EmulMem .x86_64 := codeAtZero .x86_64 [0x66, 0x66, 0x66, 0x89, 0x07]

theorem movStore_valid {legacy : List (BitVec 8)} (hl : ∀ b ∈ legacy, isLegacyPrefix b = true) :
    (movStore legacy).Valid .prot32 where
  legacy := hl
  rex := by simp [movStore]
  first := show isLegacyPrefix 0x89 = false by decide
  noRex := fun hmode => by cases hmode
  onebyte := fun _ => show (0x89 : BitVec 8) ≠ 0x0f by decide

theorem again66 (legacy : List (BitVec 8)) : Relation.EqvGen PrefixStep (0x66 :: legacy) (0x66 :: 0x66 :: legacy) :=
  .rel _ _ (.again [] legacy 0x66)

theorem emulate_prefixes_small :
    ((movStore [0x66]).SizesBySet (romOps .x86_64 movStoreCode) ((flatCtxt .x86_64 .prot32).atRip 2) () ∧
      (movStore [0x66, 0x66, 0x66]).SizesBySet (romOps .x86_64 movStoreCode) ((flatCtxt .x86_64 .prot32).atRip 0) () ∧
      SameEffects (romOps .x86_64 movStoreCode) (romOps .x86_64 movStoreCode) (idleHost .x86_64) true
        ((flatCtxt .x86_64 .prot32).atRip 2) ((flatCtxt .x86_64 .prot32).atRip 0) () ()) ↔
      (movStore [0x66]).OddOverrides ∧ (movStore [0x66, 0x66, 0x66]).OddOverrides :=
  emulate_prefixes (idleHost .x86_64) true 0
    (fun hmode => by cases hmode) (movStore_valid (by decide)) (movStore_valid (by decide)) (by decide) (by decide)
    ⟨(again66 []).trans _ _ _ (again66 [0x66]), rfl, rfl, rfl⟩ (by decide)
    (romOps_fetches ⟨rfl, rfl, trivial⟩) (romOps_fetches ⟨rfl, rfl, rfl, rfl, trivial⟩) (Prog.Alike.refl _ _ _)

/-- With a second 66 the store has 4 bytes. -/
theorem prefix_twice : ¬∀ (arch : Arch) (h h' : (c : OpCall arch) → Unit → OpReply arch c × Unit) (cpu : HostCpu arch)
    (ctxt : X86EmulateCtxt arch) (rip : ULong arch) (e e' : Encoding), HostMode arch ctxt.mode → e.Valid ctxt.mode →
      e'.Valid ctxt.mode → e.legacy.length < 8 → e'.legacy.length < 8 → e.SamePrefixes e' →
        rip + BitVec.ofNat _ e'.bytes.length = ctxt.rip + BitVec.ofNat _ e.bytes.length →
          FetchesTo h (ctxt.rip + ctxt.csBase) e.bytes () () → FetchesTo h' (rip + ctxt.csBase) e'.bytes () () →
            (e.rest cpu true ctxt).Alike h h' () () →
              e.SizesBySet h ctxt () ∧ e'.SizesBySet h' (ctxt.atRip rip) () ∧
                SameEffects h h' cpu true ctxt (ctxt.atRip rip) () () := by
  intro hall
  obtain ⟨-, -, hsame⟩ := hall .x86_64 (romOps .x86_64 movStoreCode) (romOps .x86_64 movStoreCode) (idleHost .x86_64)
    ((flatCtxt .x86_64 .prot32).atRip 2) 1 (movStore [0x66]) (movStore [0x66, 0x66]) (fun hmode => by cases hmode)
    (movStore_valid (by decide)) (movStore_valid (by decide)) (by decide) (by decide) ⟨again66 [], rfl, rfl, rfl⟩
    (by decide) (romOps_fetches ⟨rfl, rfl, trivial⟩) (romOps_fetches ⟨rfl, rfl, rfl, trivial⟩) (Prog.Alike.refl _ _ _)
  have hcalls := congrArg (List.map fun ev => ev.1) hsame.accesses
  exact absurd hcalls (by decide)

end LearnKvm
