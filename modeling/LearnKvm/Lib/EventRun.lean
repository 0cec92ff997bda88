import Mathlib.Data.List.Basic

/-!
# Runs of systems whose steps are labelled

`Run step s log t`: steps lead from `s` to `t`, and `log` lists their labels in order.  An invariant of the steps holds
along a run (`Run.invariant`), and a system follows another one when every step does (`Run.simulate`).
-/

namespace EventRun

variable {σ τ ε : Type} {step : σ → ε → σ → Prop} {step' : τ → ε → τ → Prop} {s t : σ} {log : List ε}

inductive Run (step : σ → ε → σ → Prop) (s : σ) : List ε → σ → Prop
  | refl : Run step s [] s
  | tail {t u : σ} {log : List ε} {e : ε} (h : Run step s log t) (hstep : step t e u) : Run step s (log ++ [e]) u

theorem Run.invariant {I : σ → Prop} (hI : ∀ s e t, I s → step s e t → I t) (h : Run step s log t) (hs : I s) : I t := by
  induction h with
  | refl => exact hs
  | tail _ hstep ih => exact hI _ _ _ ih hstep

/-- A simulation that holds in the states of an invariant. -/
theorem Run.simulate {I : σ → Prop} (f : σ → τ) (hI : ∀ s e t, I s → step s e t → I t)
    (hf : ∀ s e t, I s → step s e t → step' (f s) e (f t)) (h : Run step s log t) (hs : I s) :
    Run step' (f s) log (f t) := by
  induction h with
  | refl => exact .refl
  | tail hrun hstep ih => exact .tail ih (hf _ _ _ (hrun.invariant hI hs) hstep)

theorem Run.mono {step2 : σ → ε → σ → Prop} (hsub : ∀ s e t, step s e t → step2 s e t) (h : Run step s log t) :
    Run step2 s log t := by
  induction h with
  | refl => exact .refl
  | tail _ hstep ih => exact .tail ih (hsub _ _ _ hstep)

/-- A run passes through a state after each part of its log. -/
theorem Run.split (h : Run step s log t) (a b : List ε) (hlog : log = a ++ b) :
    ∃ u, Run step s a u ∧ Run step u b t := by
  induction h generalizing b with
  | refl =>
    obtain ⟨rfl, rfl⟩ := List.append_eq_nil_iff.1 hlog.symm
    exact ⟨s, .refl, .refl⟩
  | @tail t u log e h hstep ih =>
    rcases List.eq_nil_or_concat b with rfl | ⟨b', e', rfl⟩
    · rw [List.append_nil] at hlog
      exact ⟨u, hlog ▸ .tail h hstep, .refl⟩
    · rw [List.concat_eq_append, ← List.append_assoc] at hlog
      obtain ⟨rfl, he⟩ := List.append_inj' hlog rfl
      obtain rfl := (List.cons.inj he).1
      obtain ⟨v, ha, hb⟩ := ih b' rfl
      rw [List.concat_eq_append]
      exact ⟨v, ha, .tail hb hstep⟩

/-- The last step of a run. -/
theorem Run.last {e : ε} (h : Run step s (log ++ [e]) t) : ∃ u, Run step s log u ∧ step u e t := by
  generalize hlog : log ++ [e] = l at h
  cases h with
  | refl => simp at hlog
  | @tail u _ log' e' h hstep =>
    obtain ⟨rfl, he⟩ := List.append_inj' hlog rfl
    obtain rfl := (List.cons.inj he).1
    exact ⟨u, h, hstep⟩

end EventRun
