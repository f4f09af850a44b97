/-
# Runs of a system, and what a condition on its steps preserves

A system is a type `σ` of states, a type `α` of operations and a total function
`step : σ → α → σ`; everything an operation does not control (a clock reading, a fresh
token, a choice of the scheduler) is part of the operation.  A run is a list of operations.

A claim about every run is proved in two parts: what one operation preserves (a fact of the
system), and the induction over the list, which is here once and for all.

* `run_invariant`: an invariant of every step the condition admits holds after every run
  whose steps all meet the condition.
* `run_of_not_meets`: what a step outside the condition brings about, and no later step undoes,
  holds after every run that does not meet the condition.
* `run_rel`: a reflexive and transitive relation between the states around each step holds
  between the ends of the run ("a generation never decreases").
-/
import Mathlib

namespace PosseClient.Runs

variable {σ α : Type*} (step : σ → α → σ)

/-! ## 1. Runs -/

/-- The state after the operations `as`, in order. -/
def run (s : σ) (as : List α) : σ := as.foldl step s

@[simp] theorem run_nil (s : σ) : run step s [] = s := rfl

@[simp] theorem run_cons (s : σ) (a : α) (as : List α) :
    run step s (a :: as) = run step (step s a) as := rfl

theorem run_append (s : σ) (as bs : List α) :
    run step s (as ++ bs) = run step (run step s as) bs :=
  List.foldl_append

/-- Every step of the run meets `ok`, a condition on the operation and on the state before
it. -/
def Meets (ok : σ → α → Prop) : σ → List α → Prop
  | _, [] => True
  | s, a :: as => ok s a ∧ Meets ok (step s a) as

instance Meets.decidable (ok : σ → α → Prop) [∀ s a, Decidable (ok s a)] :
    ∀ (s : σ) (as : List α), Decidable (Meets step ok s as)
  | _, [] => inferInstanceAs (Decidable True)
  | s, a :: as =>
    have := Meets.decidable ok (step s a) as
    inferInstanceAs (Decidable (ok s a ∧ Meets step ok (step s a) as))

variable {step} {ok : σ → α → Prop}

/-- A condition that excludes nothing is met by every run. -/
theorem Meets.of_forall (h : ∀ s a, ok s a) : ∀ (s : σ) (as : List α), Meets step ok s as
  | _, [] => trivial
  | s, a :: as => ⟨h s a, Meets.of_forall h (step s a) as⟩

theorem meets_append {s : σ} {as bs : List α} :
    Meets step ok s (as ++ bs) ↔
      Meets step ok s as ∧ Meets step ok (run step s as) bs := by
  induction as generalizing s with
  | nil => simp [Meets]
  | cons a as ih => simp [Meets, ih, and_assoc]

/-! ## 2. The two induction rules -/

/-- **The invariant rule.**  What every admitted step preserves, every admitted run does. -/
theorem run_invariant {Inv : σ → Prop} (hstep : ∀ s a, Inv s → ok s a → Inv (step s a))
    {s : σ} {as : List α} (hs : Inv s) (hm : Meets step ok s as) : Inv (run step s as) := by
  induction as generalizing s with
  | nil => exact hs
  | cons a as ih => exact ih (hstep s a hs hm.1) hm.2

/-- The invariant rule for a step that needs no condition. -/
theorem run_invariant_of_forall {Inv : σ → Prop} (hstep : ∀ s a, Inv s → Inv (step s a))
    {s : σ} {as : List α} (hs : Inv s) : Inv (run step s as) := by
  have hm : Meets step (fun _ _ => True) s as := Meets.of_forall (fun _ _ => trivial) s as
  exact run_invariant (fun s a h _ => hstep s a h) hs hm

/-- **The rule of the broken condition.**  If a step outside the condition makes `Bad` true, and
no step makes it false again, then `Bad` holds after every run that leaves the condition. -/
theorem run_of_not_meets {Inv Bad : σ → Prop} (hinv : ∀ s a, Inv s → Inv (step s a))
    (hbreak : ∀ s a, Inv s → ¬ ok s a → Bad (step s a))
    (hkeep : ∀ s a, Inv s → Bad s → Bad (step s a))
    {s : σ} {as : List α} (hs : Inv s) (hm : ¬ Meets step ok s as) : Bad (run step s as) := by
  induction as generalizing s with
  | nil => exact absurd trivial hm
  | cons a as ih =>
    by_cases ha : ok s a
    · exact ih (hinv s a hs) fun hrest => hm ⟨ha, hrest⟩
    · have hkept : ∀ t b, Inv t ∧ Bad t → Inv (step t b) ∧ Bad (step t b) :=
        fun t b ht => ⟨hinv t b ht.1, hkeep t b ht.1 ht.2⟩
      have hboth : Inv (run step (step s a) as) ∧ Bad (run step (step s a) as) :=
        run_invariant_of_forall hkept ⟨hinv s a hs, hbreak s a hs ha⟩
      exact hboth.2

/-- **The monotonicity rule.**  A reflexive and transitive relation that holds across every
admitted step from a state of the invariant holds across every admitted run. -/
theorem run_rel {Inv : σ → Prop} {R : σ → σ → Prop} (hrefl : ∀ s, R s s)
    (htrans : ∀ s t u, R s t → R t u → R s u)
    (hinv : ∀ s a, Inv s → ok s a → Inv (step s a))
    (hstep : ∀ s a, Inv s → ok s a → R s (step s a))
    {s : σ} {as : List α} (hs : Inv s) (hm : Meets step ok s as) : R s (run step s as) := by
  induction as generalizing s with
  | nil => exact hrefl s
  | cons a as ih =>
    exact htrans s (step s a) _ (hstep s a hs hm.1) (ih (hinv s a hs hm.1) hm.2)

/-- The monotonicity rule for a relation that holds across every step. -/
theorem run_rel_of_forall {R : σ → σ → Prop} (hrefl : ∀ s, R s s)
    (htrans : ∀ s t u, R s t → R t u → R s u) (hstep : ∀ s a, R s (step s a))
    (s : σ) (as : List α) : R s (run step s as) := by
  induction as generalizing s with
  | nil => exact hrefl s
  | cons a as ih => exact htrans s (step s a) _ (hstep s a) (ih (step s a))

end PosseClient.Runs
