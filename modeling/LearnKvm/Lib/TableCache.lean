import Mathlib.Logic.Relation

/-!
# Caches of a table that changes

A cache holds entries for some of the addresses of a table.  The table changes without the cache being told.  What
happens to the cache at one time is a `Moment`: the table has a state, entries for some addresses may be loaded from it,
some entries of the cache are invalidated.  Entries of the cache may also be changed in ways that keep what they say.

An entry is `Loaded` by a history if the table had it at some moment at which it could be loaded, and no later moment
has invalidated it.  This is what a translation lookaside buffer promises, and `Run.loaded` says that a cache keeps the
promise if each of its steps does (`Follows`).
-/

namespace TableCache

open Relation

variable {S A E : Type}

structure Moment (S A E : Type) where
  table : S
  loads : A → Prop
  invalidates : A → E → Prop

/-- The history has its last moment first. -/
def Loaded (holds : S → A → E → Prop) (history : List (Moment S A E)) (a : A) (e : E) : Prop :=
  ∃ newer m older, history = newer ++ m :: older ∧ m.loads a ∧ holds m.table a e ∧
    ∀ k ∈ newer, ¬k.invalidates a e

/-- An entry that the cache has after a moment is loaded, or it was there before, and is not invalidated. -/
def Follows (holds : S → A → E → Prop) (alters : E → E → Prop) (m : Moment S A E) (c c' : A → E → Prop) : Prop :=
  ∀ a e, c' a e → m.loads a ∧ holds m.table a e ∨ ∃ e', c a e' ∧ ReflTransGen alters e' e ∧ ¬m.invalidates a e

/-- The runs of a cache that is empty at first. -/
inductive Run (holds : S → A → E → Prop) (alters : E → E → Prop) : List (Moment S A E) → (A → E → Prop) → Prop
  | empty {c : A → E → Prop} (h : ∀ a e, ¬c a e) : Run holds alters [] c
  | step {history : List (Moment S A E)} {m : Moment S A E} {c c' : A → E → Prop} (h : Run holds alters history c)
      (hm : Follows holds alters m c c') : Run holds alters (m :: history) c'

/-- Alterations keep what an entry says, and whether it is invalidated. -/
structure Harmless (holds : S → A → E → Prop) (alters : E → E → Prop) (m : Moment S A E) : Prop where
  holds : ∀ {a e e'}, alters e e' → holds m.table a e → holds m.table a e'
  invalidates : ∀ {a e e'}, alters e e' → m.invalidates a e' → m.invalidates a e

variable {holds : S → A → E → Prop} {alters : E → E → Prop} {m : Moment S A E} {history : List (Moment S A E)} {a : A}
  {e e' : E}

theorem Harmless.star (h : Harmless holds alters m) : Harmless holds (ReflTransGen alters) m where
  holds hch := by
    induction hch with
    | refl => exact id
    | tail _ hstep ih => exact fun he => h.holds hstep (ih he)
  invalidates hch := by
    induction hch with
    | refl => exact id
    | tail _ hstep ih => exact fun he => ih (h.invalidates hstep he)

theorem Loaded.alter (hl : Loaded holds history a e) (hch : ReflTransGen alters e e')
    (hharm : ∀ k ∈ history, Harmless holds alters k) : Loaded holds history a e' := by
  obtain ⟨newer, m, older, rfl, hload, hhold, hnot⟩ := hl
  have hm := (hharm m (by simp)).star
  refine ⟨newer, m, older, rfl, hload, hm.holds hch hhold, fun k hk hinv => hnot k hk ?_⟩
  exact (hharm k (List.mem_append_left _ hk)).star.invalidates hch hinv

theorem Loaded.cons (hl : Loaded holds history a e) (hnot : ¬m.invalidates a e) :
    Loaded holds (m :: history) a e := by
  obtain ⟨newer, k, older, rfl, hload, hhold, hnewer⟩ := hl
  exact ⟨m :: newer, k, older, rfl, hload, hhold, List.forall_mem_cons.2 ⟨hnot, hnewer⟩⟩

/-- A cache all of whose steps follow the table has loaded entries only. -/
theorem Run.loaded {c : A → E → Prop} (hrun : Run holds alters history c)
    (hharm : ∀ k ∈ history, Harmless holds alters k) (he : c a e) : Loaded holds history a e := by
  induction hrun generalizing e with
  | empty hempty => exact absurd he (hempty a e)
  | @step history m c c' hrun hm ih =>
    have hold := fun k hk => hharm k (List.mem_cons_of_mem m hk)
    rcases hm a e he with ⟨hload, hhold⟩ | ⟨e', he', hch, hnot⟩
    · exact ⟨[], m, history, rfl, hload, hhold, fun k hk => absurd hk (List.not_mem_nil)⟩
    · exact ((ih hold he').alter hch hold).cons hnot

end TableCache
