import Mathlib.Data.List.Basic
import Mathlib.Logic.Basic

/-!
# Programs that call their environment

A program is a tree: it returns a value, fails with an error, or makes a call and goes on with the reply.  `C` are the
calls and `R c` the replies to the call `c`.  The environment is an arbitrary handler with a state of its own, so what
holds of `Prog.run` for every handler holds for every behaviour of the environment.

Two predicates on programs are proved along their structure.

* `Within P Q`: every call satisfies `P`, and every value that is returned satisfies `Q`.
* `Atomic refusal eff own Q`: a refused call ends the program at once with the error of the refusal, an accepted call
  with an effect ends it at once with a value, and `own` are the errors that the program itself makes.  So a run that
  fails has had no effect, and a run that returns has had at most one (`Atomic.run`).
-/

namespace Calls

variable {C : Type} {R : C → Type} {E α β σ : Type}

inductive Prog (R : C → Type) (E α : Type) where
  | ret (a : α)
  | fail (e : E)
  | call (c : C) (k : R c → Prog R E α)

namespace Prog

def bind : Prog R E α → (α → Prog R E β) → Prog R E β
  | ret a, f => f a
  | fail e, _ => fail e
  | call c k, f => call c fun r => (k r).bind f

instance : Monad (Prog R E) where
  pure := ret
  bind := bind

/-- The program that makes one call and returns the reply. -/
def ask (c : C) : Prog R E (R c) := call c ret

@[simp] theorem pure_eq (a : α) : (pure a : Prog R E α) = ret a := rfl
@[simp] theorem ret_bind (a : α) (f : α → Prog R E β) : (ret a >>= f) = f a := rfl
@[simp] theorem fail_bind (e : E) (f : α → Prog R E β) : (fail e >>= f) = fail e := rfl
@[simp] theorem call_bind (c : C) (k : R c → Prog R E α) (f : α → Prog R E β) :
    (call c k >>= f) = call c fun r => k r >>= f := rfl

theorem bind_assoc {γ : Type} (p : Prog R E α) (f : α → Prog R E β) (g : β → Prog R E γ) :
    p >>= f >>= g = p >>= fun a => f a >>= g := by
  induction p with
  | ret a => rfl
  | fail e => rfl
  | call c k ih => exact congrArg (call c) (funext ih)

theorem bind_ret (p : Prog R E α) : (p >>= fun a => ret a) = p := by
  induction p with
  | ret a => rfl
  | fail e => rfl
  | call c k ih => exact congrArg (call c) (funext ih)

end Prog

/-! ### Runs -/

/-- A call with its reply. -/
abbrev Event (R : C → Type) := (c : C) × R c

structure Outcome (R : C → Type) (E σ α : Type) where
  result : Except E α
  state : σ
  trace : List (Event R)

variable (h : (c : C) → σ → R c × σ)

namespace Prog

def run : Prog R E α → σ → Outcome R E σ α
  | ret a, s => ⟨.ok a, s, []⟩
  | fail e, s => ⟨.error e, s, []⟩
  | call c k, s =>
    let o := (k (h c s).1).run (h c s).2
    { o with trace := ⟨c, (h c s).1⟩ :: o.trace }

@[simp] theorem run_ret (a : α) (s : σ) : (ret a : Prog R E α).run h s = ⟨.ok a, s, []⟩ := rfl
@[simp] theorem run_fail (e : E) (s : σ) : (fail e : Prog R E α).run h s = ⟨.error e, s, []⟩ := rfl

theorem run_call (c : C) (k : R c → Prog R E α) (s : σ) :
    (call c k).run h s =
      { (k (h c s).1).run h (h c s).2 with trace := ⟨c, (h c s).1⟩ :: ((k (h c s).1).run h (h c s).2).trace } := rfl

/-- A run of two programs is a run of the first, and of the second from where the first has returned. -/
theorem run_bind (p : Prog R E α) (f : α → Prog R E β) (s : σ) :
    (p >>= f).run h s =
      match (p.run h s).result with
      | .ok a => { (f a).run h (p.run h s).state with
          trace := (p.run h s).trace ++ ((f a).run h (p.run h s).state).trace }
      | .error e => ⟨.error e, (p.run h s).state, (p.run h s).trace⟩ := by
  induction p generalizing s with
  | ret a => rfl
  | fail e => rfl
  | call c k ih =>
    rw [call_bind, run_call, run_call, ih]
    cases hr : ((k (h c s).1).run h (h c s).2).result <;> rfl

/-- A run whose value is changed at the end only. -/
theorem run_bind_map {P : β → β → Prop} (p : Prog R E α) (f : α → Prog R E β) {g : α → β → β} (hP : ∀ a b, P b (g a b))
    (s : σ) :
    ((p >>= fun a => f a >>= fun b => ret (g a b)).run h s).trace = ((p >>= f).run h s).trace ∧
      (∀ e, ((p >>= f).run h s).result = .error e →
        ((p >>= fun a => f a >>= fun b => ret (g a b)).run h s).result = .error e) ∧
      ∀ b, ((p >>= f).run h s).result = .ok b →
        ∃ b', ((p >>= fun a => f a >>= fun b => ret (g a b)).run h s).result = .ok b' ∧ P b b' := by
  rw [run_bind, run_bind]
  cases hp : (p.run h s).result with
  | error e => exact ⟨rfl, fun _ he => he, fun b hb => by cases hb⟩
  | ok a =>
    dsimp only
    rw [run_bind]
    cases hf : ((f a).run h (p.run h s).state).result with
    | error e => exact ⟨rfl, fun _ he => he, fun b hb => by cases hb⟩
    | ok b =>
      refine ⟨?_, fun e he => (by cases he), fun c hc => ?_⟩
      · simp
      · cases hc
        exact ⟨g a b, rfl, hP a b⟩

/-- A property of the state that every reply in the trace keeps holds at the end. -/
theorem run_keeps {I : σ → Prop} {B : Event R → Prop}
    (hk : ∀ c s, ¬ B ⟨c, (h c s).1⟩ → I s → I (h c s).2) {p : Prog R E α} {s : σ}
    (ht : ∀ e ∈ (p.run h s).trace, ¬ B e) (hs : I s) : I (p.run h s).state := by
  induction p generalizing s with
  | ret a => exact hs
  | fail e => exact hs
  | call c k ih =>
    rw [run_call] at ht ⊢
    have h1 : ¬ B ⟨c, (h c s).1⟩ := ht _ (List.mem_cons_self ..)
    exact ih _ (fun e he => ht e (List.mem_cons_of_mem _ he)) (hk c s h1 hs)

/-- Every call that a run makes satisfies `P` in the state in which it is made. -/
def Visits (P : C → σ → Prop) : Prog R E α → σ → Prop
  | ret _, _ => True
  | fail _, _ => True
  | call c k, s => P c s ∧ (k (h c s).1).Visits P (h c s).2

theorem visits_iff {P : C → σ → Prop} {B : Event R → Prop} (hP : ∀ c s, P c s ↔ ¬ B ⟨c, (h c s).1⟩)
    (p : Prog R E α) (s : σ) : p.Visits h P s ↔ ∀ e ∈ (p.run h s).trace, ¬ B e := by
  induction p generalizing s with
  | ret a => simp [Visits]
  | fail e => simp [Visits]
  | call c k ih =>
    rw [run_call, List.forall_mem_cons, ← hP, ← ih]
    rfl

/-! ### Two environments -/

section

variable {τ : Type} (h' : (c : C) → τ → R c × τ)

/-- Another environment replies alike along a run. -/
def Alike : Prog R E α → σ → τ → Prop
  | ret _, _, _ => True
  | fail _, _, _ => True
  | call c k, s, t => (h c s).1 = (h' c t).1 ∧ (k (h c s).1).Alike (h c s).2 (h' c t).2

theorem Alike.run {p : Prog R E α} {s : σ} {t : τ} (hp : p.Alike h h' s t) :
    (p.run h' t).result = (p.run h s).result ∧ (p.run h' t).trace = (p.run h s).trace := by
  induction p generalizing s t with
  | ret a => exact ⟨rfl, rfl⟩
  | fail e => exact ⟨rfl, rfl⟩
  | call c k ih =>
    obtain ⟨hreply, hrest⟩ := hp
    rw [run_call, run_call, ← hreply]
    obtain ⟨hresult, htrace⟩ := ih _ hrest
    exact ⟨hresult, congrArg (List.cons _) htrace⟩

end

theorem Alike.refl (p : Prog R E α) (s : σ) : p.Alike h h s s := by
  induction p generalizing s with
  | ret a => trivial
  | fail e => trivial
  | call c k ih => exact ⟨rfl, ih _ _⟩

/-! ### What a program may call -/

def Within (P : C → Prop) (Q : α → Prop) : Prog R E α → Prop
  | ret a => Q a
  | fail _ => True
  | call c k => P c ∧ ∀ r, (k r).Within P Q

variable {P : C → Prop} {Q Q' : α → Prop}

@[simp] theorem within_ret (a : α) : (ret a : Prog R E α).Within P Q ↔ Q a := Iff.rfl
@[simp] theorem within_fail (e : E) : (fail e : Prog R E α).Within P Q := trivial
@[simp] theorem within_call (c : C) (k : R c → Prog R E α) : (call c k).Within P Q ↔ P c ∧ ∀ r, (k r).Within P Q := Iff.rfl

theorem Within.mono {p : Prog R E α} (hp : p.Within P Q) (hq : ∀ a, Q a → Q' a) : p.Within P Q' := by
  induction p with
  | ret a => exact hq a hp
  | fail e => trivial
  | call c k ih => exact ⟨hp.1, fun r => ih r (hp.2 r)⟩

@[simp] theorem within_bind {P : C → Prop} {Q : β → Prop} (p : Prog R E α) (f : α → Prog R E β) :
    (p >>= f).Within P Q ↔ p.Within P fun a => (f a).Within P Q := by
  induction p with
  | ret a => rfl
  | fail e => rfl
  | call c k ih =>
    constructor
    · rintro ⟨hc, hk⟩
      exact ⟨hc, fun r => (ih r).1 (hk r)⟩
    · rintro ⟨hc, hk⟩
      exact ⟨hc, fun r => (ih r).2 (hk r)⟩

theorem Within.bind {P : C → Prop} {Q : α → Prop} {S : β → Prop} {p : Prog R E α} {f : α → Prog R E β}
    (hp : p.Within P Q) (hf : ∀ a, Q a → (f a).Within P S) : (p >>= f).Within P S :=
  (within_bind p f).2 (hp.mono hf)

theorem Within.ite {b : Prop} [Decidable b] {p q : Prog R E α} (hp : b → p.Within P Q) (hq : ¬ b → q.Within P Q) :
    (if b then p else q).Within P Q := by
  by_cases h : b
  · rw [if_pos h]
    exact hp h
  · rw [if_neg h]
    exact hq h

theorem Within.run {p : Prog R E α} (hp : p.Within P Q) (s : σ) :
    (∀ e ∈ (p.run h s).trace, P e.1) ∧ ∀ a, (p.run h s).result = .ok a → Q a := by
  induction p generalizing s with
  | ret a =>
    refine ⟨by simp, fun b hb => ?_⟩
    cases hb
    exact hp
  | fail e =>
    refine ⟨by simp, fun b hb => ?_⟩
    cases hb
  | call c k ih =>
    obtain ⟨hc, hk⟩ := hp
    obtain ⟨h1, h2⟩ := ih _ (hk (h c s).1) (h c s).2
    refine ⟨fun e he => ?_, h2⟩
    rw [run_call] at he
    rcases List.mem_cons.1 he with rfl | he
    · exact hc
    · exact h1 e he

/-! ### Partial correctness -/

/-- From every state of `I`, a run that returns a value returns one of `Q`, in a state of `I`. -/
def Ensures (I : σ → Prop) (Q : α → Prop) (p : Prog R E α) : Prop :=
  ∀ s, I s → ∀ a, (p.run h s).result = .ok a → Q a ∧ I (p.run h s).state

section

variable {h} {I : σ → Prop}

theorem ensures_ret {a : α} (hQ : Q a) : (ret a : Prog R E α).Ensures h I Q := by
  intro s hs b hb
  cases hb
  exact ⟨hQ, hs⟩

theorem ensures_fail (e : E) : (fail e : Prog R E α).Ensures h I Q := by
  intro s _ b hb
  cases hb

theorem Ensures.mono {p : Prog R E α} (hp : p.Ensures h I Q) (hq : ∀ a, Q a → Q' a) : p.Ensures h I Q' := by
  intro s hs a ha
  obtain ⟨hQ, hI⟩ := hp s hs a ha
  exact ⟨hq a hQ, hI⟩

theorem Ensures.bind {S : β → Prop} {p : Prog R E α} {f : α → Prog R E β} (hp : p.Ensures h I Q)
    (hf : ∀ a, Q a → (f a).Ensures h I S) : (p >>= f).Ensures h I S := by
  intro s hs b hb
  rw [run_bind] at hb ⊢
  cases ha : (p.run h s).result with
  | error e =>
    rw [ha] at hb
    cases hb
  | ok a =>
    rw [ha] at hb
    obtain ⟨hQ, hI⟩ := hp s hs a ha
    exact hf a hQ _ hI b hb

/-- A program that can return one value only. -/
theorem Ensures.bind_eq {S : β → Prop} {p : Prog R E α} {a : α} {f : α → Prog R E β} (hp : p.Ensures h I (· = a))
    (hf : (f a).Ensures h I S) : (p >>= f).Ensures h I S := by
  apply hp.bind
  rintro _ rfl
  exact hf

end

/-! ### Programs whose effect comes last -/

variable (refusal : (c : C) → R c → Option E) (eff : C → Prop) (own : E → Prop)

def Atomic (Q : α → Prop) : Prog R E α → Prop
  | ret _ => True
  | fail e => own e
  | call c k => ∀ r,
    (∀ e, refusal c r = some e → k r = fail e) ∧
    (refusal c r = none → eff c → ∃ a, k r = ret a ∧ Q a) ∧
    (refusal c r = none → ¬ eff c → (k r).Atomic Q)

variable {refusal eff own}

@[simp] theorem atomic_ret (a : α) : (ret a : Prog R E α).Atomic refusal eff own Q := trivial
@[simp] theorem atomic_fail (e : E) : (fail e : Prog R E α).Atomic refusal eff own Q ↔ own e := Iff.rfl

theorem Atomic.mono {own' : E → Prop} {p : Prog R E α} (hp : p.Atomic refusal eff own Q) (ho : ∀ e, own e → own' e)
    (hq : ∀ a, Q a → Q' a) : p.Atomic refusal eff own' Q' := by
  induction p with
  | ret a => trivial
  | fail e => exact ho e hp
  | call c k ih =>
    intro r
    obtain ⟨h1, h2, h3⟩ := hp r
    refine ⟨h1, fun hn he => ?_, fun hn he => ih r (h3 hn he)⟩
    obtain ⟨a, ha, hqa⟩ := h2 hn he
    exact ⟨a, ha, hq a hqa⟩

theorem Atomic.ite {b : Prop} [Decidable b] {p q : Prog R E α} (hp : b → p.Atomic refusal eff own Q)
    (hq : ¬ b → q.Atomic refusal eff own Q) : (if b then p else q).Atomic refusal eff own Q := by
  by_cases h : b
  · rw [if_pos h]
    exact hp h
  · rw [if_neg h]
    exact hq h

/-- What follows an effect has to end at once. -/
theorem Atomic.bind {S : β → Prop} {p : Prog R E α} {f : α → Prog R E β} (hp : p.Atomic refusal eff own Q)
    (hf : ∀ a, (f a).Atomic refusal eff own S) (hq : ∀ a, Q a → ∃ b, f a = ret b ∧ S b) :
    (p >>= f).Atomic refusal eff own S := by
  induction p with
  | ret a => exact hf a
  | fail e => exact hp
  | call c k ih =>
    intro r
    obtain ⟨h1, h2, h3⟩ := hp r
    refine ⟨fun e he => ?_, fun hn he => ?_, fun hn he => ih r (h3 hn he)⟩
    · show k r >>= f = fail e
      rw [h1 e he]
      rfl
    · obtain ⟨a, ha, hqa⟩ := h2 hn he
      obtain ⟨b, hb, hsb⟩ := hq a hqa
      refine ⟨b, ?_, hsb⟩
      show k r >>= f = ret b
      rw [ha]
      exact hb

/-- A program without effects may be followed by anything. -/
abbrev Quiet (refusal : (c : C) → R c → Option E) (eff : C → Prop) (own : E → Prop) (p : Prog R E α) : Prop :=
  p.Atomic refusal eff own fun _ => False

theorem Quiet.bind {S : β → Prop} {p : Prog R E α} {f : α → Prog R E β} (hp : p.Quiet refusal eff own)
    (hf : ∀ a, (f a).Atomic refusal eff own S) : (p >>= f).Atomic refusal eff own S :=
  Atomic.bind hp hf fun _ h => h.elim

/-- Only the values that are returned matter. -/
theorem Quiet.bind_of_within {S : β → Prop} {p : Prog R E α} {f : α → Prog R E β} (hp : p.Quiet refusal eff own)
    (hw : p.Within P Q) (hf : ∀ a, Q a → (f a).Atomic refusal eff own S) : (p >>= f).Atomic refusal eff own S := by
  induction p with
  | ret a => exact hf a hw
  | fail e => exact hp
  | call c k ih =>
    intro r
    obtain ⟨h1, h2, h3⟩ := hp r
    refine ⟨fun e he => ?_, fun hn he => ?_, fun hn he => ih r (h3 hn he) (hw.2 r)⟩
    · show k r >>= f = fail e
      rw [h1 e he]
      rfl
    · obtain ⟨a, -, hqa⟩ := h2 hn he
      exact hqa.elim

theorem Quiet.atomic {p : Prog R E α} (hp : p.Quiet refusal eff own) : p.Atomic refusal eff own Q :=
  Atomic.mono hp (fun _ h => h) fun _ h => h.elim

/-- A call without effect whose refusal is an error and whose reply is otherwise returned. -/
theorem quiet_call {c : C} {k : R c → Prog R E α} (hc : ¬ eff c)
    (hr : ∀ r e, refusal c r = some e → k r = fail e) (hk : ∀ r, refusal c r = none → (k r).Quiet refusal eff own) :
    (call c k).Quiet refusal eff own :=
  fun r => ⟨hr r, fun _ he => absurd he hc, fun hn _ => hk r hn⟩

end Prog

/-! ### Runs of atomic programs -/

variable {refusal : (c : C) → R c → Option E} {eff : C → Prop} {own : E → Prop}

/-- The call has an effect and was not refused. -/
def Event.Effect (refusal : (c : C) → R c → Option E) (eff : C → Prop) (e : Event R) : Prop :=
  eff e.1 ∧ refusal e.1 e.2 = none

/-- A run has had no effect, or one that is its last event: the state before it is one that calls without effect lead
to. -/
def EffectLast (refusal : (c : C) → R c → Option E) (eff : C → Prop) (s : σ) (t : List (Event R)) (s' : σ) : Prop :=
  (∀ e ∈ t, ¬ e.Effect refusal eff) ∨
  ∃ t₁ c s₁, t = t₁ ++ [⟨c, (h c s₁).1⟩] ∧ Event.Effect refusal eff ⟨c, (h c s₁).1⟩ ∧ s' = (h c s₁).2 ∧
    (∀ e ∈ t₁, ¬ e.Effect refusal eff) ∧
    ∀ I : σ → Prop, (∀ c s, ¬ Event.Effect refusal eff ⟨c, (h c s).1⟩ → I s → I (h c s).2) → I s → I s₁

theorem EffectLast.cons {c : C} {s s' : σ} {t : List (Event R)}
    (hn : ¬ Event.Effect refusal eff ⟨c, (h c s).1⟩) (ht : EffectLast h refusal eff (h c s).2 t s') :
    EffectLast h refusal eff s (⟨c, (h c s).1⟩ :: t) s' := by
  rcases ht with ht | ⟨t₁, d, s₁, rfl, hd, hs', ht₁, hI⟩
  · left
    intro e he
    rcases List.mem_cons.1 he with rfl | he
    · exact hn
    · exact ht e he
  · right
    refine ⟨⟨c, (h c s).1⟩ :: t₁, d, s₁, rfl, hd, hs', fun e he => ?_, fun I hk hs => hI I hk (hk c s hn hs)⟩
    rcases List.mem_cons.1 he with rfl | he
    · exact hn
    · exact ht₁ e he

/-- Why a run has failed: by the error of a call that was refused, or by an error of the program with no call refused. -/
def FailsBy (refusal : (c : C) → R c → Option E) (own : E → Prop) (t : List (Event R)) (e : E) : Prop :=
  (∃ t₁ x, t = t₁ ++ [x] ∧ refusal x.1 x.2 = some e ∧ ∀ y ∈ t₁, refusal y.1 y.2 = none) ∨
  (own e ∧ ∀ y ∈ t, refusal y.1 y.2 = none)

theorem FailsBy.cons {x : Event R} {t : List (Event R)} {e : E} (hx : refusal x.1 x.2 = none)
    (ht : FailsBy refusal own t e) : FailsBy refusal own (x :: t) e := by
  have grow : ∀ {l : List (Event R)}, (∀ y ∈ l, refusal y.1 y.2 = none) → ∀ y ∈ x :: l, refusal y.1 y.2 = none := by
    intro l hl y hy
    rcases List.mem_cons.1 hy with rfl | hy
    · exact hx
    · exact hl y hy
  rcases ht with ⟨t₁, y, rfl, hy, ht₁⟩ | ⟨ho, ht⟩
  · exact Or.inl ⟨x :: t₁, y, rfl, hy, grow ht₁⟩
  · exact Or.inr ⟨ho, grow ht⟩

theorem Prog.Atomic.run {p : Prog R E α} {Q : α → Prop} (hp : p.Atomic refusal eff own Q) (s : σ) :
    (∀ a, (p.run h s).result = .ok a →
      EffectLast h refusal eff s (p.run h s).trace (p.run h s).state ∧
      (∀ e ∈ (p.run h s).trace, refusal e.1 e.2 = none) ∧
      ((∃ e ∈ (p.run h s).trace, e.Effect refusal eff) → Q a)) ∧
    ∀ e, (p.run h s).result = .error e →
      FailsBy refusal own (p.run h s).trace e ∧ ∀ x ∈ (p.run h s).trace, ¬ x.Effect refusal eff := by
  induction p generalizing s with
  | ret a =>
    refine ⟨fun b hb => ⟨Or.inl (by simp), by simp, by simp⟩, fun e he => ?_⟩
    cases he
  | fail e =>
    refine ⟨fun b hb => ?_, fun e' he => ?_⟩
    · cases hb
    · cases he
      exact ⟨Or.inr ⟨hp, by simp⟩, by simp⟩
  | call c k ih =>
    obtain ⟨h1, h2, h3⟩ := hp (h c s).1
    rw [Prog.run_call]
    cases hr : refusal c (h c s).1 with
    | some e' =>
      -- refused: the program ends here
      have hn : ¬ Event.Effect refusal eff ⟨c, (h c s).1⟩ := by
        rintro ⟨-, hx⟩
        simp only [hr] at hx
        cases hx
      rw [h1 e' hr]
      refine ⟨fun b hb => (by cases hb), fun e he => ?_⟩
      cases he
      refine ⟨Or.inl ⟨[], _, rfl, hr, by simp⟩, fun x hx => ?_⟩
      rcases List.mem_cons.1 hx with rfl | hx
      · exact hn
      · cases hx
    | none =>
      by_cases he : eff c
      · -- the effect: the program ends here
        obtain ⟨a, ha, hqa⟩ := h2 hr he
        rw [ha]
        refine ⟨fun b hb => ?_, fun e he => (by cases he)⟩
        cases hb
        refine ⟨Or.inr ⟨[], c, s, rfl, ⟨he, hr⟩, rfl, by simp, fun I _ hs => hs⟩, fun x hx => ?_, fun _ => hqa⟩
        rcases List.mem_cons.1 hx with rfl | hx
        · exact hr
        · cases hx
      · have hn : ¬ Event.Effect refusal eff ⟨c, (h c s).1⟩ := fun hx => he hx.1
        obtain ⟨ihok, ihfail⟩ := ih (h c s).1 (h3 hr he) (h c s).2
        refine ⟨fun a ha => ?_, fun e hf => ?_⟩
        · obtain ⟨hl, hno, hq⟩ := ihok a ha
          refine ⟨hl.cons h hn, fun x hx => ?_, fun hx => hq ?_⟩
          · rcases List.mem_cons.1 hx with rfl | hx
            · exact hr
            · exact hno x hx
          · obtain ⟨x, hx, hxe⟩ := hx
            rcases List.mem_cons.1 hx with rfl | hx
            · exact absurd hxe hn
            · exact ⟨x, hx, hxe⟩
        · obtain ⟨hfb, hno⟩ := ihfail e hf
          refine ⟨hfb.cons hr, fun x hx => ?_⟩
          rcases List.mem_cons.1 hx with rfl | hx
          · exact hn
          · exact hno x hx

/-- A run fails with an error that is not the program's own exactly if a call was refused with it. -/
theorem Prog.Atomic.fails_iff {p : Prog R E α} {Q : α → Prop} (hp : p.Atomic refusal eff own Q) {e : E} (he : ¬ own e)
    (s : σ) : (p.run h s).result = .error e ↔ ∃ x ∈ (p.run h s).trace, refusal x.1 x.2 = some e := by
  obtain ⟨hok, hfail⟩ := hp.run h s
  constructor
  · intro hr
    rcases (hfail e hr).1 with ⟨t₁, x, ht, hx, -⟩ | ⟨ho, -⟩
    · exact ⟨x, by rw [ht]; simp, hx⟩
    · exact absurd ho he
  · rintro ⟨y, hy, hye⟩
    cases hr : (p.run h s).result with
    | ok a =>
      have hno := (hok a hr).2.1 y hy
      rw [hye] at hno
      cases hno
    | error e' =>
      rcases (hfail e' hr).1 with ⟨t₁, x, ht, hx, hno⟩ | ⟨-, hno⟩
      · rw [ht] at hy
        rcases List.mem_append.1 hy with hy | hy
        · have := hno y hy
          rw [hye] at this
          cases this
        · rw [List.mem_singleton.1 hy, hx] at hye
          cases hye
          rfl
      · have := hno y hy
        rw [hye] at this
        cases this

end Calls
