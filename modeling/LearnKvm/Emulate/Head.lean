import LearnKvm.Emulate.Addressing

/-!
# Runs of the decoder up to the opcode (`x86_emulate.c`)

`FetchesTo` says that callbacks deliver the bytes of an encoding one after the other.  The run of the decoder is then, up to
these fetches, the run of what follows the opcode (`decode_head`): with at most seven legacy prefixes it does not fail
before.
-/

namespace LearnKvm

open Calls

variable {arch : Arch} {σ α β : Type} {h : (c : OpCall arch) → σ → OpReply arch c × σ}

/-- The callbacks deliver bytes from an address on, and end in the second state. -/
inductive FetchesTo (h : (c : OpCall arch) → σ → OpReply arch c × σ) : ULong arch → List (BitVec 8) → σ → σ → Prop where
  | nil (addr : ULong arch) (s : σ) : FetchesTo h addr [] s s
  | cons {addr : ULong arch} {b : BitVec 8} {bytes : List (BitVec 8)} {s s' : σ} {v : ULong arch}
      (byte : (h (.readStd addr 1) s).1 = .ok v) (low : v.setWidth 8 = b)
      (rest : FetchesTo h (addr + 1#_) bytes (h (.readStd addr 1) s).2 s') : FetchesTo h addr (b :: bytes) s s'

theorem FetchesTo.append {addr : ULong arch} {l₁ l₂ : List (BitVec 8)} {s s' : σ}
    (hl : FetchesTo h addr (l₁ ++ l₂) s s') :
    ∃ t, FetchesTo h addr l₁ s t ∧ FetchesTo h (addr + BitVec.ofNat _ l₁.length) l₂ t s' := by
  induction l₁ generalizing addr s with
  | nil => exact ⟨s, .nil addr s, by simpa using hl⟩
  | cons b l₁ ih =>
    cases hl with
    | cons hbyte hlow hrest =>
      obtain ⟨t, h1, h2⟩ := ih hrest
      refine ⟨t, .cons hbyte hlow h1, ?_⟩
      rw [ByteMem.add_ofNat, Nat.add_comm] at h2
      exact h2

/-- A program that makes fetches only, and returns. -/
def Returns (h : (c : OpCall arch) → σ → OpReply arch c × σ) (p : Emul arch α) (s : σ) (a : α) (s' : σ) : Prop :=
  (p.run h s).result = .ok a ∧ (p.run h s).state = s' ∧ accesses (p.run h s).trace = []

/-- Two runs that are the same up to fetches. -/
structure SameRun (o o' : Calls.Outcome (OpReply arch) (Exit arch) σ α) : Prop where
  result : o.result = o'.result
  state : o.state = o'.state
  accesses : accesses o.trace = accesses o'.trace

theorem Returns.ret (a : α) (s : σ) : Returns h (.ret a : Emul arch α) s a s := ⟨rfl, rfl, rfl⟩

theorem Returns.same {p : Emul arch α} {s s' : σ} {a : α} (hp : Returns h p s a s') (f : α → Emul arch β) :
    SameRun ((p >>= f).run h s) ((f a).run h s') := by
  obtain ⟨hres, hstate, hacc⟩ := hp
  have hrun : (p >>= f).run h s = { (f a).run h s' with trace := (p.run h s).trace ++ ((f a).run h s').trace } := by
    rw [Prog.run_bind, hres, hstate]
  rw [hrun]
  refine ⟨rfl, rfl, ?_⟩
  dsimp only
  rw [accesses_append, hacc, List.nil_append]

theorem SameRun.trans {o₁ o₂ o₃ : Calls.Outcome (OpReply arch) (Exit arch) σ α} (h₁ : SameRun o₁ o₂) (h₂ : SameRun o₂ o₃) :
    SameRun o₁ o₃ :=
  ⟨h₁.result.trans h₂.result, h₁.state.trans h₂.state, h₁.accesses.trans h₂.accesses⟩

theorem SameRun.bind {p q : Emul arch α} {s t : σ} (hpq : SameRun (p.run h s) (q.run h t)) (f : α → Emul arch β) :
    SameRun ((p >>= f).run h s) ((q >>= f).run h t) := by
  obtain ⟨hres, hstate, hacc⟩ := hpq
  rw [Prog.run_bind, Prog.run_bind, hres, hstate]
  cases (q.run h t).result with
  | ok a =>
    refine ⟨rfl, rfl, ?_⟩
    dsimp only
    rw [accesses_append, accesses_append, hacc]
  | error e => exact ⟨rfl, rfl, hacc⟩

theorem Returns.bind {p : Emul arch α} {f : α → Emul arch β} {s t u : σ} {a : α} {b : β} (hp : Returns h p s a t)
    (hf : Returns h (f a) t b u) : Returns h (p >>= f) s b u := by
  obtain ⟨hres, hstate, hacc⟩ := hp.same f
  exact ⟨hres.trans hf.1, hstate.trans hf.2.1, hacc.trans hf.2.2⟩

/-! ### The stages -/

variable {ctxt : X86EmulateCtxt arch} {s t : σ} {e : Encoding}

theorem FetchesTo.cast {addr addr' : ULong arch} {l l' : List (BitVec 8)} {s s' : σ} (hl : FetchesTo h addr l s s')
    (haddr : addr = addr') (hbytes : l = l') : FetchesTo h addr' l' s s' := by
  rw [← haddr, ← hbytes]
  exact hl

theorem fetchByte_returns {eip : ULong arch} {b : BitVec 8} (hb : FetchesTo h (eip + ctxt.csBase) [b] s t) :
    Returns h (fetchByte ctxt eip) s (b, eip + 1#_) t := by
  cases hb with
  | cons hbyte hlow hrest =>
    rename_i v
    cases hrest
    have hread : Returns h (Emul.readStd (eip + ctxt.csBase) 1) s v (h (.readStd (eip + ctxt.csBase) 1) s).2 := by
      have hrun : (Emul.readStd (eip + ctxt.csBase) 1).run h s =
          { (Emul.orDone (h (.readStd (eip + ctxt.csBase) 1) s).1).run h (h (.readStd (eip + ctxt.csBase) 1) s).2 with
            trace := ⟨.readStd (eip + ctxt.csBase) 1, (h (.readStd (eip + ctxt.csBase) 1) s).1⟩ ::
              ((Emul.orDone (h (.readStd (eip + ctxt.csBase) 1) s).1).run h
                (h (.readStd (eip + ctxt.csBase) 1) s).2).trace } := rfl
      unfold Returns
      rw [hrun, hbyte]
      exact ⟨rfl, rfl, rfl⟩
    have hfetch : Returns h (insnFetch ctxt 1 eip) s (v, eip + 1#_) (h (.readStd (eip + ctxt.csBase) 1) s).2 :=
      hread.bind (Returns.ret _ _)
    rw [← hlow]
    exact hfetch.bind (Returns.ret _ _)

theorem legacyPrefixes_returns {l : List (BitVec 8)} (hl : ∀ b ∈ l, isLegacyPrefix b = true) {b : BitVec 8}
    (hb : isLegacyPrefix b = false) {n : Nat} (hn : l.length < n) {p : Prefixes arch}
    (hat : FetchesTo h (p.eip + ctxt.csBase) (l ++ [b]) s t) :
    Returns h (legacyPrefixes ctxt n p) s
      { l.foldl (Prefixes.apply ctxt.mode) p with b := b, eip := p.eip + BitVec.ofNat _ (l.length + 1) } t := by
  induction l generalizing n p s with
  | nil =>
    obtain ⟨n, rfl⟩ : ∃ m, n = m + 1 := ⟨n - 1, by simp at hn; omega⟩
    apply (fetchByte_returns hat).bind
    dsimp only
    rw [legacyPrefix_eq, hb]
    exact Returns.ret _ _
  | cons c l ih =>
    obtain ⟨n, rfl⟩ : ∃ m, n = m + 1 := ⟨n - 1, by simp at hn; omega⟩
    have hc : isLegacyPrefix c = true := hl c (List.mem_cons_self ..)
    obtain ⟨u, hfirst, hrest⟩ := @FetchesTo.append _ _ _ _ [c] _ _ _ hat
    have hnext : p.eip + ctxt.csBase + BitVec.ofNat _ 1 = p.eip + 1#_ + ctxt.csBase := (ByteMem.add_ofNat_comm ..).symm
    apply (fetchByte_returns hfirst).bind
    dsimp only
    rw [legacyPrefix_eq, hc]
    let q : Prefixes arch := { p with b := c, eip := p.eip + 1#_ }
    have hgo := ih (fun d hd => hl d (List.mem_cons_of_mem _ hd)) (n := n) (by simp at hn; omega)
      (p := q.apply ctxt.mode c) (hrest.cast hnext rfl)
    have hfold := foldl_apply ctxt.mode l (p.apply ctxt.mode c) c (p.eip + 1#_)
    have heip : p.eip + 1#_ + BitVec.ofNat _ (l.length + 1) = p.eip + BitVec.ofNat _ (l.length + 1 + 1) := by
      rw [ByteMem.add_ofNat, Nat.add_comm 1]
    have hq : { l.foldl (Prefixes.apply ctxt.mode) (q.apply ctxt.mode c) with
        b := b, eip := (q.apply ctxt.mode c).eip + BitVec.ofNat _ (l.length + 1) } =
          { (c :: l).foldl (Prefixes.apply ctxt.mode) p with
            b := b, eip := p.eip + BitVec.ofNat _ ((c :: l).length + 1) } := by
      show { List.foldl (Prefixes.apply ctxt.mode) { p.apply ctxt.mode c with b := c, eip := p.eip + 1#_ } l with
        b := b, eip := p.eip + 1#_ + BitVec.ofNat _ (l.length + 1) } = _
      rw [hfold, heip]
      rfl
    exact hq ▸ hgo

/-- Where the rounds run out, the last byte is a prefix. -/
theorem legacyPrefixes_full_returns {l : List (BitVec 8)} (hl : ∀ b ∈ l, isLegacyPrefix b = true) {n : Nat}
    (hn : n ≤ l.length) {p : Prefixes arch} (hp : n = 0 → isLegacyPrefix p.b = true)
    (hat : FetchesTo h (p.eip + ctxt.csBase) l s t) :
    ∃ q u, Returns h (legacyPrefixes ctxt n p) s q u ∧ isLegacyPrefix q.b = true := by
  induction n generalizing l p s with
  | zero => exact ⟨p, s, Returns.ret p s, hp rfl⟩
  | succ n ih =>
    cases l with
    | nil => simp at hn
    | cons c l =>
      have hc : isLegacyPrefix c = true := hl c (List.mem_cons_self ..)
      obtain ⟨u, hfirst, hrest⟩ := @FetchesTo.append _ _ _ _ [c] _ _ _ hat
      have hnext : p.eip + ctxt.csBase + BitVec.ofNat _ 1 = p.eip + 1#_ + ctxt.csBase := (ByteMem.add_ofNat_comm ..).symm
      let q : Prefixes arch := { p with b := c, eip := p.eip + 1#_ }
      obtain ⟨r, v, hgo, hr⟩ := ih (fun d hd => hl d (List.mem_cons_of_mem _ hd)) (by simpa using hn)
        (p := q.apply ctxt.mode c) (fun _ => hc) (hrest.cast hnext rfl)
      refine ⟨r, v, ?_, hr⟩
      apply (fetchByte_returns hfirst).bind
      dsimp only
      rw [legacyPrefix_eq, hc]
      exact hgo

theorem rexPrefix_returns (he : e.Valid ctxt.mode) {p : Prefixes arch} (hb : p.b = e.rex.getD e.first)
    (hat : FetchesTo h (p.eip + ctxt.csBase) (e.rex.toList.map fun _ => e.first) s t) :
    Returns h (rexPrefix ctxt p) s
      ({ p with
        b := e.first, eip := p.eip + BitVec.ofNat _ e.rex.toList.length
        opBytes := if e.rexBits.rexPrefix &&& 8 ≠ 0 then 8 else p.opBytes }, e.rexBits) t := by
  unfold rexPrefix
  cases hr : e.rex with
  | none =>
    rw [hr] at hb hat
    cases hat
    have hfirst : p.b = e.first := hb
    have hno : ¬ (ctxt.mode = .prot64 ∧ p.b &&& 0xf0 = 0x40) := by
      rintro ⟨hmode, hp⟩
      rw [hfirst] at hp
      exact he.noRex hmode hp
    have hbits : e.rexBits = noRex := by
      unfold Encoding.rexBits
      rw [hr]
    have hsame : p = { p with
        b := e.first, eip := p.eip + BitVec.ofNat _ 0
        opBytes := if noRex.rexPrefix &&& 8 ≠ 0 then 8 else p.opBytes } := by
      rw [← hfirst]
      simp [noRex]
    rw [if_neg hno, hbits]
    exact hsame ▸ Returns.ret _ _
  | some r =>
    rw [hr] at hb hat
    obtain ⟨hmode, hrex⟩ := he.rex r hr
    have hbits : e.rexBits = rexBits r := by
      unfold Encoding.rexBits
      rw [hr]
    have hcond : ctxt.mode = .prot64 ∧ p.b &&& 0xf0 = 0x40 := ⟨hmode, (congrArg (· &&& 0xf0) hb).trans hrex⟩
    rw [if_pos hcond, hbits]
    apply (fetchByte_returns hat).bind
    rw [show p.b = r from hb]
    exact Returns.ret _ _

/-- An opcode without decode flags is not emulated. -/
theorem decodeOpcode_returns (he : e.Valid ctxt.mode) {p : Prefixes arch} (hb : p.b = e.first)
    (hat : FetchesTo h (p.eip + ctxt.csBase) e.opcodeBytes.tail s t)
    (f : BitVec 8 × Bool × ULong arch → Emul arch β) :
    SameRun ((decodeOpcode ctxt p >>= f).run h s)
      ((if e.d = 0 then .fail .cannotEmulate
        else f (e.opcode, e.twobyte, p.eip + BitVec.ofNat _ (e.opcodeBytes.length - 1)) : Emul arch β).run h t) := by
  unfold Encoding.first at hb
  unfold Encoding.d
  cases ht : e.twobyte with
  | true =>
    rw [ht, if_pos rfl] at hb
    have hbytes : e.opcodeBytes = [0x0f, e.opcode] := if_pos ht
    rw [hbytes] at hat
    have hopcode : decodeOpcode ctxt p = fetchByte ctxt p.eip >>= fun r =>
        if twobyteTable.getD r.1.toNat 0 = 0 then .fail .cannotEmulate else .ret (r.1, true, r.2) := by
      unfold decodeOpcode
      rw [hb, if_pos opcodeTable_escape, if_pos rfl]
      rfl
    rw [hopcode, Prog.bind_assoc, hbytes, if_pos rfl]
    apply (Returns.same (fetchByte_returns hat) _).trans
    by_cases hd : twobyteTable.getD e.opcode.toNat 0 = 0
    · rw [if_pos hd, if_pos hd]
      exact ⟨rfl, rfl, rfl⟩
    · rw [if_neg hd, if_neg hd]
      exact ⟨rfl, rfl, rfl⟩
  | false =>
    rw [ht, if_neg Bool.false_ne_true] at hb
    have hbytes : e.opcodeBytes = [e.opcode] := if_neg (by rw [ht]; exact Bool.false_ne_true)
    rw [hbytes] at hat
    cases hat
    have heip : p.eip + BitVec.ofNat _ 0 = p.eip := by simp
    rw [hbytes, if_neg Bool.false_ne_true]
    show SameRun _ ((if _ then _ else f (e.opcode, false, p.eip + BitVec.ofNat _ 0) : Emul arch β).run h s)
    unfold decodeOpcode
    rw [heip, hb]
    by_cases hd : opcodeTable.getD e.opcode.toNat 0 = 0
    · rw [if_pos hd, if_pos hd, if_neg (he.onebyte ht)]
      exact ⟨rfl, rfl, rfl⟩
    · rw [if_neg hd, if_neg hd]
      exact ⟨rfl, rfl, rfl⟩

/-! ### The decoder -/

/-- A mode of the host. -/
def HostMode (arch : Arch) (mode : X86EmulMode) : Prop := mode = .prot64 → arch = .x86_64

theorem HostMode.sizes {mode : X86EmulMode} (hm : HostMode arch mode) : ∃ sizes, modeBytes arch mode = some sizes := by
  cases mode with
  | prot64 => exact ⟨(4, 8), if_pos (hm rfl)⟩
  | _ => exact ⟨_, rfl⟩

/-- The first part of the decoder: the legacy prefixes and REX, up to the first byte of the opcode. -/
def decodePrefixes (ctxt : X86EmulateCtxt arch) : Emul arch (Prefixes arch × RexBits) :=
  match modeBytes arch ctxt.mode with
  | none => .fail .cannotEmulate
  | some (opBytes, adBytes) => legacyPrefixes ctxt 8 ⟨0, opBytes, adBytes, none, false, false, ctxt.rip⟩ >>= rexPrefix ctxt

theorem decode_prefixes (ctxt : X86EmulateCtxt arch) : decode ctxt = decodePrefixes ctxt >>= fun q =>
    decodeOpcode ctxt q.1 >>= fun o => decodeOperands ctxt { q.1 with eip := o.2.2 } q.2 o.1 o.2.1 := by
  unfold decodePrefixes
  cases hs : modeBytes arch ctxt.mode with
  | none =>
    unfold decode
    rw [hs]
    rfl
  | some sizes => rw [decode_eq ctxt hs, Prog.bind_assoc]

/-- The bytes up to the first of the opcode. -/
def Encoding.headLength (e : Encoding) : Nat := e.legacy.length + 1 + e.rex.toList.length

theorem Encoding.opcodeBytes_eq (e : Encoding) : e.opcodeBytes = e.first :: e.opcodeBytes.tail := by
  unfold opcodeBytes first
  cases e.twobyte <;> rfl

theorem Encoding.bytes_eq (e : Encoding) : e.bytes = (e.legacy ++ [e.rex.getD e.first]) ++
    ((e.rex.toList.map fun _ => e.first) ++ e.opcodeBytes.tail) := by
  unfold bytes
  rw [e.opcodeBytes_eq]
  cases e.rex with
  | none => simp
  | some r => simp

theorem Encoding.bytes_length (e : Encoding) : e.bytes.length = e.headLength + (e.opcodeBytes.length - 1) := by
  have hmap : (e.rex.toList.map fun _ => e.first).length = e.rex.toList.length := List.length_map _
  have hone : [e.rex.getD e.first].length = 1 := rfl
  unfold headLength
  rw [e.bytes_eq, List.length_append, List.length_append, List.length_append, hmap, hone, List.length_tail]
  omega

/-- The prefixes with at most seven legacy prefixes: the fetches succeed. -/
theorem prefixes_returns (hm : HostMode arch ctxt.mode) (he : e.Valid ctxt.mode) (hlen : e.legacy.length < 8)
    (hat : FetchesTo h (ctxt.rip + ctxt.csBase) e.bytes s t) :
    ∃ v, Returns h (decodePrefixes ctxt) s
        (e.prefixes ctxt.mode (ctxt.rip + BitVec.ofNat _ e.headLength), e.rexBits) v ∧
      FetchesTo h (ctxt.rip + BitVec.ofNat _ e.headLength + ctxt.csBase) e.opcodeBytes.tail v t := by
  obtain ⟨sizes, hs⟩ := hm.sizes
  have hstart : Encoding.start arch ctxt.mode = ⟨0, sizes.1, sizes.2, none, false, false, 0#_⟩ := by
    unfold Encoding.start
    rw [hs]
    rfl
  have hnot : isLegacyPrefix (e.rex.getD e.first) = false := by
    cases hr : e.rex with
    | none => exact he.first
    | some r => exact rex_not_legacy r (he.rex r hr).2
  have hmap : (e.rex.toList.map fun _ => e.first).length = e.rex.toList.length := List.length_map _
  have hlegacy : (e.legacy ++ [e.rex.getD e.first]).length = e.legacy.length + 1 := List.length_append
  obtain ⟨u, hprefixes, hrest⟩ := FetchesTo.append (hat.cast rfl e.bytes_eq)
  obtain ⟨v, hrex, hop⟩ := FetchesTo.append hrest
  rw [hlegacy] at hrex hop
  rw [hmap] at hop
  refine ⟨v, ?_, hop.cast ?_ rfl⟩
  · -- the legacy prefixes with the byte behind them, and REX
    have h1 := legacyPrefixes_returns (n := 8) he.legacy hnot hlen
      (p := ⟨0, sizes.1, sizes.2, none, false, false, ctxt.rip⟩) hprefixes
    have h2 := rexPrefix_returns he (p := { e.legacy.foldl (Prefixes.apply ctxt.mode)
      ⟨0, sizes.1, sizes.2, none, false, false, ctxt.rip⟩ with
        b := e.rex.getD e.first, eip := ctxt.rip + BitVec.ofNat _ (e.legacy.length + 1) }) rfl
      (hrex.cast (ByteMem.add_ofNat_comm ..).symm rfl)
    have hfold := foldl_apply ctxt.mode e.legacy (Encoding.start arch ctxt.mode) 0 ctxt.rip
    rw [hstart] at hfold
    have hprefixes : decodePrefixes ctxt =
        legacyPrefixes ctxt 8 ⟨0, sizes.1, sizes.2, none, false, false, ctxt.rip⟩ >>= rexPrefix ctxt := by
      unfold decodePrefixes
      rw [hs]
    have hboth := h1.bind h2
    rw [← hprefixes] at hboth
    unfold Encoding.prefixes Encoding.headLength
    rw [hstart]
    dsimp only at hfold hboth ⊢
    rw [hfold, ByteMem.add_ofNat] at hboth
    exact hboth
  · unfold Encoding.headLength
    rw [ByteMem.add_ofNat, ByteMem.add_ofNat_comm]

/-- What the decoder does behind the opcode. -/
def Encoding.decodeRest (ctxt : X86EmulateCtxt arch) (e : Encoding) : Emul arch (Insn arch) :=
  if e.d = 0 then .fail .cannotEmulate
  else decodeOperands ctxt (e.prefixesAt ctxt) e.rexBits e.opcode e.twobyte

/-- The decoder at an encoding with at most seven prefixes: the operands follow. -/
theorem decode_head (hm : HostMode arch ctxt.mode) (he : e.Valid ctxt.mode) (hlen : e.legacy.length < 8)
    (hat : FetchesTo h (ctxt.rip + ctxt.csBase) e.bytes s t) :
    SameRun ((decode ctxt).run h s) ((e.decodeRest ctxt).run h t) := by
  obtain ⟨v, hprefixes, hop⟩ := prefixes_returns hm he hlen hat
  rw [decode_prefixes]
  apply (hprefixes.same _).trans
  apply (decodeOpcode_returns he rfl hop _).trans
  unfold Encoding.decodeRest Encoding.prefixesAt
  rw [e.bytes_length, ← ByteMem.add_ofNat]
  exact ⟨rfl, rfl, rfl⟩

/-- With more prefixes the decoder gives up. -/
theorem decode_overfull (he : e.Valid ctxt.mode) (hfull : 8 ≤ e.legacy.length)
    (hat : FetchesTo h (ctxt.rip + ctxt.csBase) e.bytes s t) : ((decode ctxt).run h s).result = .error .cannotEmulate := by
  cases hs : modeBytes arch ctxt.mode with
  | none =>
    unfold decode
    rw [hs]
    rfl
  | some sizes =>
    obtain ⟨u, hlegacy, -⟩ := FetchesTo.append hat
    rw [decode_eq ctxt hs]
    obtain ⟨p, v, hgo, hp⟩ := legacyPrefixes_full_returns he.legacy hfull
      (p := ⟨0, sizes.1, sizes.2, none, false, false, ctxt.rip⟩) (fun h0 => absurd h0 (by decide)) hlegacy
    rw [(hgo.same _).result]
    obtain ⟨htable, htwo, hrex⟩ := legacy_opcode p.b hp
    have hret : rexPrefix ctxt p = .ret (p, noRex) := by
      unfold rexPrefix
      rw [if_neg fun hno => hrex hno.2]
      rfl
    have hfail : decodeOpcode ctxt p = .fail .cannotEmulate := by
      unfold decodeOpcode
      rw [if_pos htable, if_neg htwo]
    rw [hret, Prog.ret_bind]
    dsimp only
    rw [hfail]
    rfl

end LearnKvm
