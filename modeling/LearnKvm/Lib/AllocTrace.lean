import Mathlib.Algebra.Order.Group.Multiset
import Mathlib.Data.Multiset.UnionInter

/-!
# Traces of allocations

A trace is the list of what a program allocates and frees.  `run` follows it from the resources that are live at the
start, and stops at the first free of a null pointer or of something that is not live, so that a trace with
`FreedOnce` frees everything that it allocates, once, and nothing else.  What is live besides does not matter to a run
(`run_frame`), so the traces of the parts of a program can be followed one by one.  A `ledger` of what is live does not
stop: it agrees with a run that does not stop either (`ledger_of_run`).
-/

namespace AllocTrace

variable {R : Type*} [DecidableEq R]

/-- `free none` frees a null pointer. -/
inductive Event (R : Type*) where
  | alloc (r : R)
  | free (r : Option R)

def step (live : Multiset R) : Event R → Option (Multiset R)
  | .alloc r => some (r ::ₘ live)
  | .free none => none
  | .free (some r) => if r ∈ live then some (live.erase r) else none

def run (live : Multiset R) : List (Event R) → Option (Multiset R)
  | [] => some live
  | e :: es => (step live e).bind fun live => run live es

/-- Everything that is allocated is freed, once. -/
def FreedOnce (es : List (Event R)) : Prop := run 0 es = some 0

variable {live live' rest : Multiset R} {es es' : List (Event R)}

@[simp] theorem run_nil : run live [] = some live := rfl

theorem run_cons (e : Event R) : run live (e :: es) = (step live e).bind fun live => run live es := rfl

@[simp] theorem run_alloc (r : R) : run live (.alloc r :: es) = run (r ::ₘ live) es := rfl

@[simp] theorem run_freeNull : run live (.free none :: es) = none := rfl

@[simp] theorem run_free (r : R) : run (r ::ₘ live) (.free (some r) :: es) = run live es := by
  simp [run, step]

theorem run_append : run live (es ++ es') = (run live es).bind fun live => run live es' := by
  induction es generalizing live with
  | nil => rfl
  | cons e es ih =>
    show (step live e).bind (fun live => run live (es ++ es')) = _
    rw [run_cons]
    cases step live e with
    | none => rfl
    | some live => exact ih

/-- A trace after one that has been followed. -/
theorem run_append_of_eq (h : run live es = some live') : run live (es ++ es') = run live' es' := by
  rw [run_append, h]
  rfl

/-- What else is live stays live. -/
theorem run_frame (h : run live es = some live') (rest : Multiset R) : run (live + rest) es = some (live' + rest) := by
  induction es generalizing live with
  | nil =>
    obtain rfl := Option.some.inj h
    rfl
  | cons e es ih =>
    cases e with
    | alloc r =>
      rw [run_alloc] at h ⊢
      rw [← Multiset.cons_add]
      exact ih h
    | free r =>
      cases r with
      | none => cases h
      | some r =>
        by_cases hr : r ∈ live
        · obtain ⟨live, rfl⟩ := Multiset.exists_cons_of_mem hr
          rw [run_free] at h
          rw [Multiset.cons_add, run_free]
          exact ih h
        · simp [run, step, hr] at h

theorem run_allocs (rs : List R) : run live (rs.map .alloc ++ es) = run ((rs : Multiset R) + live) es := by
  induction rs generalizing live with
  | nil => simp
  | cons r rs ih =>
    rw [List.map_cons, List.cons_append, run_alloc, ih, ← Multiset.cons_coe, Multiset.cons_add, Multiset.add_cons]

/-- Frees empty the heap by what they free. -/
theorem run_frees_iff (rs : List (Option R)) :
    run live (rs.map .free) = some live' ↔ (rs : Multiset (Option R)) + live'.map some = live.map some := by
  induction rs generalizing live with
  | nil =>
    rw [List.map_nil, run_nil, Multiset.coe_nil, zero_add, Option.some_inj, eq_comm]
    exact (Multiset.map_injective (Option.some_injective R)).eq_iff.symm
  | cons r rs ih =>
    rw [List.map_cons, ← Multiset.cons_coe, Multiset.cons_add]
    cases r with
    | none =>
      rw [run_freeNull]
      refine iff_of_false (by simp) fun h => ?_
      have hmem : none ∈ live.map some := h ▸ Multiset.mem_cons_self _ _
      simp at hmem
    | some r =>
      by_cases hr : r ∈ live
      · obtain ⟨live, rfl⟩ := Multiset.exists_cons_of_mem hr
        rw [run_free, ih, Multiset.map_cons, Multiset.cons_inj_right]
      · refine iff_of_false (by simp [run, step, hr]) fun h => hr ?_
        have hmem : some r ∈ live.map some := h ▸ Multiset.mem_cons_self _ _
        simpa using hmem

/-- A trace that only allocates first and only frees then. -/
theorem run_allocs_frees_iff (allocs : List R) (frees : List (Option R)) :
    run live (allocs.map .alloc ++ frees.map .free) = some live' ↔
      (frees : Multiset (Option R)) + live'.map some = (allocs : Multiset R).map some + live.map some := by
  rw [run_allocs, run_frees_iff, Multiset.map_add]

theorem run_frees (rs : List R) : run ((rs : Multiset R) + live) (rs.map fun r => .free (some r)) = some live := by
  have h : run ((rs : Multiset R) + live) ((rs.map some).map .free) = some live :=
    (run_frees_iff (rs.map some)).2 (by rw [Multiset.map_add, Multiset.map_coe])
  rwa [List.map_map] at h

theorem run_frees_all (rs : List R) : run (rs : Multiset R) (rs.map fun r => .free (some r)) = some 0 := by
  have h : run ((rs : Multiset R) + 0) (rs.map fun r => .free (some r)) = some 0 := run_frees rs
  rwa [add_zero] at h

theorem run_of_freeNull (h : Event.free none ∈ es) : run live es = none := by
  induction es generalizing live with
  | nil => cases h
  | cons e es ih =>
    rcases List.mem_cons.1 h with rfl | h
    · rfl
    · rw [run_cons]
      cases step live e with
      | none => rfl
      | some live => exact ih h

/-! ### Ledgers -/

/-- Takes note of an event; a free of something that is not there goes unnoticed. -/
def Event.note (live : Multiset R) : Event R → Multiset R
  | .alloc r => r ::ₘ live
  | .free none => live
  | .free (some r) => live.erase r

def ledger (live : Multiset R) (es : List (Event R)) : Multiset R := es.foldl Event.note live

theorem ledger_append : ledger live (es ++ es') = ledger (ledger live es) es' := List.foldl_append

theorem ledger_of_run (h : run live es = some live') : ledger live es = live' := by
  induction es generalizing live with
  | nil => exact Option.some.inj h
  | cons e es ih =>
    cases e with
    | alloc r => exact ih h
    | free r =>
      cases r with
      | none => cases h
      | some r =>
        by_cases hr : r ∈ live
        · obtain ⟨live, rfl⟩ := Multiset.exists_cons_of_mem hr
          rw [run_free] at h
          show ledger ((r ::ₘ live).erase r) es = live'
          rw [Multiset.erase_cons_head]
          exact ih h
        · simp [run, step, hr] at h

theorem ledger_allocs (rs : List R) : ledger live (rs.map .alloc) = (rs : Multiset R) + live := by
  have h : run live (rs.map .alloc ++ []) = run ((rs : Multiset R) + live) [] := run_allocs rs
  rw [List.append_nil, run_nil] at h
  exact ledger_of_run h

end AllocTrace
