import Mathlib.Data.Set.Basic

/-!
# Computations that record their accesses

A computation `Traced σ α β` runs on a state of type `σ`, returns a `β` and records accesses of type `α`, in order.
`Within Inv P Q m` is its contract: from a state with `Inv` it ends in such a state, all its accesses satisfy `P`, and
its result satisfies `Q`.  The rules follow the syntax of a `do` block.
-/

namespace AccessLog

/-- What a computation leaves. -/
structure Outcome (σ α β : Type) where
  value : β
  log : List α
  state : σ

structure Traced (σ α β : Type) where
  run : σ → Outcome σ α β

variable {σ α β γ : Type}

namespace Traced

instance : Monad (Traced σ α) where
  pure b := ⟨fun s => ⟨b, [], s⟩⟩
  bind m f := ⟨fun s =>
    let x := m.run s
    let y := (f x.value).run x.state
    ⟨y.value, x.log ++ y.log, y.state⟩⟩

/-- Record an access. -/
def touch (a : α) : Traced σ α Unit := ⟨fun s => ⟨(), [a], s⟩⟩

def get : Traced σ α σ := ⟨fun s => ⟨s, [], s⟩⟩

def modify (f : σ → σ) : Traced σ α Unit := ⟨fun s => ⟨(), [], f s⟩⟩

/-- Run a computation for every element of a list. -/
def forEach {ι : Type} (l : List ι) (f : ι → Traced σ α Unit) : Traced σ α Unit :=
  match l with
  | [] => pure ()
  | i :: l => do
    f i
    forEach l f

@[simp] theorem pure_run (b : β) (s : σ) : (pure b : Traced σ α β).run s = ⟨b, [], s⟩ := rfl

@[simp] theorem bind_run (m : Traced σ α β) (f : β → Traced σ α γ) (s : σ) :
    (m >>= f).run s = ⟨((f (m.run s).value).run (m.run s).state).value,
      (m.run s).log ++ ((f (m.run s).value).run (m.run s).state).log, ((f (m.run s).value).run (m.run s).state).state⟩ := rfl

@[simp] theorem touch_run (a : α) (s : σ) : (touch a : Traced σ α Unit).run s = ⟨(), [a], s⟩ := rfl

@[simp] theorem get_run (s : σ) : (get : Traced σ α σ).run s = ⟨s, [], s⟩ := rfl

@[simp] theorem modify_run (f : σ → σ) (s : σ) : (modify f : Traced σ α Unit).run s = ⟨(), [], f s⟩ := rfl

end Traced

open Traced

/-- The contract of a computation. -/
def Within (Inv : σ → Prop) (P : α → Prop) (Q : β → Prop) (m : Traced σ α β) : Prop :=
  ∀ s, Inv s → (∀ a ∈ (m.run s).log, P a) ∧ Inv (m.run s).state ∧ Q (m.run s).value

variable {Inv : σ → Prop} {P : α → Prop} {Q : β → Prop} {R : γ → Prop}

theorem within_pure {b : β} (h : Q b) : Within Inv P Q (pure b) := fun _ hs => ⟨fun _ ha => (nomatch ha), hs, h⟩

theorem Within.bind {m : Traced σ α β} {f : β → Traced σ α γ} (hm : Within Inv P Q m)
    (hf : ∀ b, Q b → Within Inv P R (f b)) : Within Inv P R (m >>= f) := by
  intro s hs
  obtain ⟨h1, h2, h3⟩ := hm s hs
  obtain ⟨h4, h5, h6⟩ := hf _ h3 _ h2
  refine ⟨fun a ha => ?_, h5, h6⟩
  rcases List.mem_append.1 ha with ha | ha
  · exact h1 a ha
  · exact h4 a ha

theorem within_touch {a : α} (h : P a) : Within Inv P (fun _ => True) (touch a) := by
  intro s hs
  refine ⟨fun b hb => ?_, hs, trivial⟩
  obtain rfl := List.mem_singleton.1 hb
  exact h

/-- The state that is read satisfies the invariant. -/
theorem within_get : Within Inv P Inv get := fun _ hs => ⟨fun _ ha => (nomatch ha), hs, hs⟩

theorem within_modify {f : σ → σ} (h : ∀ s, Inv s → Inv (f s)) : Within Inv P (fun _ => True) (modify f) :=
  fun s hs => ⟨fun _ ha => (nomatch ha), h s hs, trivial⟩

theorem within_forEach {ι : Type} {l : List ι} {f : ι → Traced σ α Unit}
    (h : ∀ i ∈ l, Within Inv P (fun _ => True) (f i)) : Within Inv P (fun _ => True) (forEach l f) := by
  induction l with
  | nil => exact within_pure trivial
  | cons i l ih =>
    unfold forEach
    exact (h i List.mem_cons_self).bind fun _ _ => ih fun j hj => h j (List.mem_cons_of_mem _ hj)

end AccessLog
