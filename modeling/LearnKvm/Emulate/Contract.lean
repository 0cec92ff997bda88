import LearnKvm.Emulate.Restart
import LearnKvm.Lib.ByteMemory

/-!
# The contracts of the callbacks (`x86_emulate.h`)

`Conforms h mem`: the callbacks `h` do what the comments on `struct x86_emulate_ops` promise, where `mem` is the memory
in a state of theirs.  They may fail at any time; then, as for a read, the memory stays as it is.  `flatOps` are
callbacks of this kind on a memory of bytes.
-/

namespace LearnKvm

open Calls

variable {arch : Arch} {σ : Type}

/-- The memory that the callbacks access. -/
abbrev EmulMem (arch : Arch) := ByteMem.Mem arch.bitsPerLong

/-- A 64-bit value in two words. -/
def join64 (hi lo : ULong arch) : BitVec 64 := (hi.setWidth 64 <<< 32) ||| (lo.setWidth 32).setWidth 64

structure Conforms (h : (c : OpCall arch) → σ → OpReply arch c × σ) (mem : σ → EmulMem arch) : Prop where
  /-- The value read, zero-extended. -/
  readEmulated : ∀ addr bytes s v, (h (.readEmulated addr bytes) s).1 = .ok v →
    v = (ByteMem.load (mem s) addr bytes).setWidth _
  /-- The low-order bytes are used as required. -/
  writeEmulated : ∀ addr val bytes s, (h (.writeEmulated addr val bytes) s).1 = .ok () →
    mem (h (.writeEmulated addr val bytes) s).2 = ByteMem.store (mem s) addr bytes (val.setWidth 64)
  /-- The value is stored if the expected one is current. -/
  cmpxchgEmulated : ∀ addr old new bytes s, (h (.cmpxchgEmulated addr old new bytes) s).1 = .ok () →
    ByteMem.load (mem s) addr bytes = (lowBytes bytes old).setWidth 64 →
      mem (h (.cmpxchgEmulated addr old new bytes) s).2 = ByteMem.store (mem s) addr bytes (new.setWidth 64)
  cmpxchg8bEmulated : ∀ addr oldLo oldHi newLo newHi s,
    (h (.cmpxchg8bEmulated addr oldLo oldHi newLo newHi) s).1 = .ok () →
      ByteMem.load (mem s) addr 8 = join64 oldHi oldLo →
        mem (h (.cmpxchg8bEmulated addr oldLo oldHi newLo newHi) s).2 =
          ByteMem.store (mem s) addr 8 (join64 newHi newLo)
  /-- A read and a refused call leave the memory as it is. -/
  kept : ∀ c s, ¬Event.Effect OpCall.refusal (fun c => c.hasEffect = true) ⟨c, (h c s).1⟩ → mem (h c s).2 = mem s

/-- A conditional store. -/
def storeIf (cond : Prop) [Decidable cond] (m m' : EmulMem arch) : Except X86EmulError Unit × EmulMem arch :=
  if cond then (.ok (), m') else (.error .propagateFault, m)

theorem storeIf_pos {cond : Prop} [Decidable cond] (m m' : EmulMem arch) (hc : cond) : storeIf cond m m' = (.ok (), m') :=
  if_pos hc

theorem storeIf_kept {cond : Prop} [Decidable cond] {m m' : EmulMem arch} {e : Exit arch}
    (hr : errorOf (storeIf cond m m').1 = some e) : (storeIf cond m m').2 = m := by
  unfold storeIf at hr ⊢
  split at hr
  · cases hr
  · rename_i hno
    rw [if_neg hno]

/-- A host whose arithmetic leaves everything as it was. -/
def idleHost (arch : Arch) : HostCpu arch := ⟨fun _ _ _ dst eflags => (dst, eflags), fun _ _ dst eflags => (dst, eflags)⟩

/-- Callbacks on a memory that fail only where a value that is expected is not current. -/
def flatOps (arch : Arch) : (c : OpCall arch) → EmulMem arch → OpReply arch c × EmulMem arch
  | .readStd addr bytes, m => (.ok ((ByteMem.load m addr bytes).setWidth _), m)
  | .readEmulated addr bytes, m => (.ok ((ByteMem.load m addr bytes).setWidth _), m)
  | .writeStd addr val bytes, m => (.ok (), ByteMem.store m addr bytes (val.setWidth 64))
  | .writeEmulated addr val bytes, m => (.ok (), ByteMem.store m addr bytes (val.setWidth 64))
  | .cmpxchgEmulated addr old new bytes, m =>
    storeIf (ByteMem.load m addr bytes = (lowBytes bytes old).setWidth 64) m
      (ByteMem.store m addr bytes (new.setWidth 64))
  | .cmpxchg8bEmulated addr oldLo oldHi newLo newHi, m =>
    storeIf (ByteMem.load m addr 8 = join64 oldHi oldLo) m (ByteMem.store m addr 8 (join64 newHi newLo))
  | .realmodeLgdt .., m => ((), m)
  | .realmodeLidt .., m => ((), m)
  | .realmodeLmsw _ rflags, m => (rflags, m)
  | .realmodeGetCr _, m => (0#_, m)
  | .realmodeSetCr _ _ rflags, m => (rflags, m)

theorem flatOps_conforms (arch : Arch) : Conforms (flatOps arch) fun m => m where
  readEmulated addr bytes s v hv := (Except.ok.inj hv).symm
  writeEmulated addr val bytes s _ := rfl
  cmpxchgEmulated addr old new bytes s _ hold := congrArg Prod.snd (storeIf_pos s _ hold)
  cmpxchg8bEmulated addr oldLo oldHi newLo newHi s _ hold := congrArg Prod.snd (storeIf_pos s _ hold)
  kept c s hc := by
    have hrefused : ∀ {r : Except X86EmulError Unit × EmulMem arch},
        ¬(true = true ∧ (errorOf r.1 : Option (Exit arch)) = none) → ∃ e : Exit arch, errorOf r.1 = some e := by
      intro r hr
      cases he : (errorOf r.1 : Option (Exit arch)) with
      | none => exact absurd ⟨rfl, he⟩ hr
      | some e => exact ⟨e, rfl⟩
    cases c with
    | writeStd addr val bytes => exact absurd ⟨rfl, rfl⟩ hc
    | writeEmulated addr val bytes => exact absurd ⟨rfl, rfl⟩ hc
    | cmpxchgEmulated addr old new bytes =>
      obtain ⟨e, he⟩ := hrefused hc
      exact storeIf_kept he
    | cmpxchg8bEmulated addr oldLo oldHi newLo newHi =>
      obtain ⟨e, he⟩ := hrefused hc
      exact storeIf_kept he
    | _ => rfl

/-! ### A call and then a program -/

variable {α : Type} {h : (c : OpCall arch) → σ → OpReply arch c × σ} {s : σ} {a : α}

theorem readStd_ok {addr : ULong arch} {bytes : Nat} {f : ULong arch → Emul arch α}
    (hr : ((Emul.readStd addr bytes >>= f).run h s).result = .ok a) :
    ∃ v, (h (.readStd addr bytes) s).1 = .ok v ∧
      (Emul.readStd addr bytes >>= f).run h s =
        { (f v).run h (h (.readStd addr bytes) s).2 with
          trace := ⟨.readStd addr bytes, .ok v⟩ :: ((f v).run h (h (.readStd addr bytes) s).2).trace } := by
  have hrun : (Emul.readStd addr bytes >>= f).run h s =
      { (Emul.orDone (h (.readStd addr bytes) s).1 >>= f).run h (h (.readStd addr bytes) s).2 with
        trace := ⟨.readStd addr bytes, (h (.readStd addr bytes) s).1⟩ ::
          ((Emul.orDone (h (.readStd addr bytes) s).1 >>= f).run h (h (.readStd addr bytes) s).2).trace } := rfl
  rw [hrun] at hr ⊢
  cases hv : (h (.readStd addr bytes) s).1 with
  | ok v => exact ⟨v, rfl, rfl⟩
  | error rc =>
    rw [hv] at hr
    cases hr

theorem readEmulated_ok {addr : ULong arch} {bytes : Nat} {f : ULong arch → Emul arch α}
    (hr : ((Emul.readEmulated addr bytes >>= f).run h s).result = .ok a) :
    ∃ v, (h (.readEmulated addr bytes) s).1 = .ok v ∧
      (Emul.readEmulated addr bytes >>= f).run h s =
        { (f v).run h (h (.readEmulated addr bytes) s).2 with
          trace := ⟨.readEmulated addr bytes, .ok v⟩ :: ((f v).run h (h (.readEmulated addr bytes) s).2).trace } := by
  have hrun : (Emul.readEmulated addr bytes >>= f).run h s =
      { (Emul.orDone (h (.readEmulated addr bytes) s).1 >>= f).run h (h (.readEmulated addr bytes) s).2 with
        trace := ⟨.readEmulated addr bytes, (h (.readEmulated addr bytes) s).1⟩ ::
          ((Emul.orDone (h (.readEmulated addr bytes) s).1 >>= f).run h (h (.readEmulated addr bytes) s).2).trace } := rfl
  rw [hrun] at hr ⊢
  cases hv : (h (.readEmulated addr bytes) s).1 with
  | ok v => exact ⟨v, rfl, rfl⟩
  | error rc =>
    rw [hv] at hr
    cases hr

theorem writeEmulated_ok {addr val : ULong arch} {bytes : Nat} {f : Unit → Emul arch α}
    (hr : ((Emul.writeEmulated addr val bytes >>= f).run h s).result = .ok a) :
    (h (.writeEmulated addr val bytes) s).1 = .ok () ∧
      (Emul.writeEmulated addr val bytes >>= f).run h s =
        { (f ()).run h (h (.writeEmulated addr val bytes) s).2 with
          trace := ⟨.writeEmulated addr val bytes, .ok ()⟩ ::
            ((f ()).run h (h (.writeEmulated addr val bytes) s).2).trace } := by
  have hrun : (Emul.writeEmulated addr val bytes >>= f).run h s =
      { (Emul.orDone (h (.writeEmulated addr val bytes) s).1 >>= f).run h (h (.writeEmulated addr val bytes) s).2 with
        trace := ⟨.writeEmulated addr val bytes, (h (.writeEmulated addr val bytes) s).1⟩ ::
          ((Emul.orDone (h (.writeEmulated addr val bytes) s).1 >>= f).run h
            (h (.writeEmulated addr val bytes) s).2).trace } := rfl
  rw [hrun] at hr ⊢
  cases hv : (h (.writeEmulated addr val bytes) s).1 with
  | ok u => exact ⟨rfl, rfl⟩
  | error rc =>
    rw [hv] at hr
    cases hr

theorem cmpxchgEmulated_ok {addr old new : ULong arch} {bytes : Nat} {f : Unit → Emul arch α}
    (hr : ((Emul.cmpxchgEmulated addr old new bytes >>= f).run h s).result = .ok a) :
    (h (.cmpxchgEmulated addr old new bytes) s).1 = .ok () ∧
      (Emul.cmpxchgEmulated addr old new bytes >>= f).run h s =
        { (f ()).run h (h (.cmpxchgEmulated addr old new bytes) s).2 with
          trace := ⟨.cmpxchgEmulated addr old new bytes, .ok ()⟩ ::
            ((f ()).run h (h (.cmpxchgEmulated addr old new bytes) s).2).trace } := by
  have hrun : (Emul.cmpxchgEmulated addr old new bytes >>= f).run h s =
      { (Emul.orDone (h (.cmpxchgEmulated addr old new bytes) s).1 >>= f).run h
          (h (.cmpxchgEmulated addr old new bytes) s).2 with
        trace := ⟨.cmpxchgEmulated addr old new bytes, (h (.cmpxchgEmulated addr old new bytes) s).1⟩ ::
          ((Emul.orDone (h (.cmpxchgEmulated addr old new bytes) s).1 >>= f).run h
            (h (.cmpxchgEmulated addr old new bytes) s).2).trace } := rfl
  rw [hrun] at hr ⊢
  cases hv : (h (.cmpxchgEmulated addr old new bytes) s).1 with
  | ok u => exact ⟨rfl, rfl⟩
  | error rc =>
    rw [hv] at hr
    cases hr

theorem cmpxchg8bEmulated_ok {addr oldLo oldHi newLo newHi : ULong arch} {f : Unit → Emul arch α}
    (hr : ((Emul.cmpxchg8bEmulated addr oldLo oldHi newLo newHi >>= f).run h s).result = .ok a) :
    (h (.cmpxchg8bEmulated addr oldLo oldHi newLo newHi) s).1 = .ok () ∧
      (Emul.cmpxchg8bEmulated addr oldLo oldHi newLo newHi >>= f).run h s =
        { (f ()).run h (h (.cmpxchg8bEmulated addr oldLo oldHi newLo newHi) s).2 with
          trace := ⟨.cmpxchg8bEmulated addr oldLo oldHi newLo newHi, .ok ()⟩ ::
            ((f ()).run h (h (.cmpxchg8bEmulated addr oldLo oldHi newLo newHi) s).2).trace } := by
  have hrun : (Emul.cmpxchg8bEmulated addr oldLo oldHi newLo newHi >>= f).run h s =
      { (Emul.orDone (h (.cmpxchg8bEmulated addr oldLo oldHi newLo newHi) s).1 >>= f).run h
          (h (.cmpxchg8bEmulated addr oldLo oldHi newLo newHi) s).2 with
        trace := ⟨.cmpxchg8bEmulated addr oldLo oldHi newLo newHi,
            (h (.cmpxchg8bEmulated addr oldLo oldHi newLo newHi) s).1⟩ ::
          ((Emul.orDone (h (.cmpxchg8bEmulated addr oldLo oldHi newLo newHi) s).1 >>= f).run h
            (h (.cmpxchg8bEmulated addr oldLo oldHi newLo newHi) s).2).trace } := rfl
  rw [hrun] at hr ⊢
  cases hv : (h (.cmpxchg8bEmulated addr oldLo oldHi newLo newHi) s).1 with
  | ok u => exact ⟨rfl, rfl⟩
  | error rc =>
    rw [hv] at hr
    cases hr

/-- Reading keeps the memory. -/
theorem Conforms.decode {mem : σ → EmulMem arch} (hc : Conforms h mem) {ctxt : X86EmulateCtxt arch} {i : Insn arch}
    (hi : ((LearnKvm.decode ctxt).run h s).result = .ok i) : mem ((LearnKvm.decode ctxt).run h s).state = mem s := by
  obtain ⟨-, -, hq⟩ := ((@decode_quiet arch (fun e => e = .cannotEmulate) ctxt rfl).run h s).1 i hi
  exact Prog.run_keeps h (I := fun t => mem t = mem s) (fun c t hn ht => (hc.kept c t hn).trans ht)
    (fun e he hE => hq ⟨e, he, hE⟩) rfl

theorem Conforms.afterRead {mem : σ → EmulMem arch} (hc : Conforms h mem) (addr : ULong arch) (bytes : Nat) (s : σ) :
    mem (h (.readEmulated addr bytes) s).2 = mem s := by
  refine hc.kept _ s ?_
  rintro ⟨hno, -⟩
  cases hno

/-- A call that commits. -/
theorem x86EmulateMemop_ok {cpu : HostCpu arch} {hasCmpxchg8b : Bool} {ctxt : X86EmulateCtxt arch} {i : Insn arch}
    {x : Exec arch} (hi : ((decode ctxt).run h s).result = .ok i)
    (hx : ((emulate cpu hasCmpxchg8b ctxt).run h s).result = .ok x) :
    ((executeAndWriteback cpu hasCmpxchg8b ctxt i).run h ((decode ctxt).run h s).state).result = .ok x ∧
      x86EmulateMemop h cpu hasCmpxchg8b ctxt s = (0, { ctxt with regs := x.regs, rip := x.eip, eflags := x.eflags },
        ((executeAndWriteback cpu hasCmpxchg8b ctxt i).run h ((decode ctxt).run h s).state).state) := by
  have hrun := emulate_run h cpu hasCmpxchg8b hi
  dsimp only at hrun
  unfold x86EmulateMemop
  rw [hrun] at hx ⊢
  dsimp only at hx ⊢
  rw [hx]
  exact ⟨rfl, rfl⟩

end LearnKvm
