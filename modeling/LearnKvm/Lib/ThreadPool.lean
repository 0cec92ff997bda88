import Mathlib.Data.List.Perm.Basic

/-!
# Pools of threads

A pool is a list of threads; in one step one thread of it changes, `Replaces`.  What holds of every thread, how many threads
satisfy a test, and what the threads contribute to a log follow from the thread that changed.
-/

variable {τ α : Type*}

/-- One thread `t` of the pool `l` has become `t'`. -/
def Replaces (t t' : τ) (l l' : List τ) : Prop := ∃ pre post, l = pre ++ t :: post ∧ l' = pre ++ t' :: post

namespace Replaces

variable {t t' : τ} {l l' : List τ}

theorem symm (h : Replaces t t' l l') : Replaces t' t l' l := by
  obtain ⟨pre, post, hl, hl'⟩ := h
  exact ⟨pre, post, hl', hl⟩

theorem mem (h : Replaces t t' l l') : t ∈ l := by
  obtain ⟨pre, post, rfl, -⟩ := h
  simp

theorem forall_mem (h : Replaces t t' l l') {P : τ → Prop} (hall : ∀ x ∈ l, P x) (hnew : P t') : ∀ x ∈ l', P x := by
  obtain ⟨pre, post, rfl, rfl⟩ := h
  intro x hx
  simp only [List.mem_append, List.mem_cons] at hx hall
  rcases hx with hx | rfl | hx
  · exact hall x (.inl hx)
  · exact hnew
  · exact hall x (.inr (.inr hx))

theorem map_eq (h : Replaces t t' l l') {f : τ → α} (hf : f t' = f t) : l'.map f = l.map f := by
  obtain ⟨pre, post, rfl, rfl⟩ := h
  simp [hf]

theorem countP_eq (h : Replaces t t' l l') {p : τ → Bool} (hp : p t' = p t) : l'.countP p = l.countP p := by
  obtain ⟨pre, post, rfl, rfl⟩ := h
  simp [List.countP_cons, hp]

theorem countP_succ (h : Replaces t t' l l') {p : τ → Bool} (ht : p t = false) (ht' : p t' = true) :
    l'.countP p = l.countP p + 1 := by
  obtain ⟨pre, post, rfl, rfl⟩ := h
  simp [ht, ht']
  omega

theorem filterMap_eq (h : Replaces t t' l l') {f : τ → Option α} (hf : f t' = f t) : l'.filterMap f = l.filterMap f := by
  obtain ⟨pre, post, rfl, rfl⟩ := h
  simp [List.filterMap_cons, hf]

/-- The thread that changed adds its event. -/
theorem filterMap_perm (h : Replaces t t' l l') {f : τ → Option α} {a : α} (ht : f t = none) (ht' : f t' = some a) :
    (l.filterMap f ++ [a]).Perm (l'.filterMap f) := by
  obtain ⟨pre, post, rfl, rfl⟩ := h
  simp only [List.filterMap_append, List.filterMap_cons, ht, ht', List.append_assoc]
  exact (List.perm_append_singleton a _).append_left _

end Replaces
