/-
# Texts escaped by doubling one character

A text in which one character is written twice where it is meant, so that a single one ends it.

* `doubled`, `readDoubled`: writing and reading.
* `readDoubled_doubled`, `eq_doubled_append`: reading undoes writing, and only that is read.
* `doubled_prefix_iff`: how an escaped text can begin.
-/
import Mathlib

namespace PosseClient.Doubling

variable {α : Type*}

/-! ## 1. Writing and reading -/

/-- Where reading stops: at the end, or at a `q` without another one after it. -/
def Stop (q : α) (rest : List α) : Prop :=
  rest = [] ∨ ∃ tail, rest = q :: tail ∧ tail.head? ≠ some q

theorem stop_cons {q : α} {tail : List α} (h : tail.head? ≠ some q) : Stop q (q :: tail) :=
  Or.inr ⟨tail, rfl, h⟩

variable [DecidableEq α]

/-- The text with each `q` written twice. -/
def doubled (q : α) : List α → List α
  | [] => []
  | c :: rest => if c = q then q :: q :: doubled q rest else c :: doubled q rest

/-- What stands before the first single `q`, and the input from there on. -/
def readDoubled (q : α) : List α → List α × List α
  | [] => ([], [])
  | [c] => if c = q then ([], [c]) else ([c], [])
  | c :: d :: rest =>
    if c = q then
      if d = q then (q :: (readDoubled q rest).1, (readDoubled q rest).2) else ([], c :: d :: rest)
    else (c :: (readDoubled q (d :: rest)).1, (readDoubled q (d :: rest)).2)

theorem doubled_eq_nil {q : α} {text : List α} : doubled q text = [] ↔ text = [] := by
  cases text with
  | nil => simp [doubled]
  | cons c rest =>
    simp only [doubled]
    split <;> simp

theorem head?_doubled (q : α) (text : List α) : (doubled q text).head? = text.head? := by
  cases text with
  | nil => rfl
  | cons c rest =>
    simp only [doubled]
    split
    case isTrue h => simp [h]
    case isFalse h => simp

theorem readDoubled_stop {q : α} {rest : List α} (h : Stop q rest) :
    readDoubled q rest = ([], rest) := by
  rcases h with rfl | ⟨tail, rfl, htail⟩
  · rfl
  · cases tail with
    | nil => simp [readDoubled]
    | cons d rest =>
      have hd : d ≠ q := by simpa using htail
      simp [readDoubled, hd]

/-- Another character is read as it stands. -/
theorem readDoubled_cons {q c : α} (h : c ≠ q) (rest : List α) :
    readDoubled q (c :: rest) = (c :: (readDoubled q rest).1, (readDoubled q rest).2) := by
  cases rest with
  | nil => simp [readDoubled, h]
  | cons d rest => simp [readDoubled, h]

/-- **Reading undoes writing.** -/
theorem readDoubled_doubled {q : α} {rest : List α} (h : Stop q rest) (text : List α) :
    readDoubled q (doubled q text ++ rest) = (text, rest) := by
  induction text with
  | nil => exact readDoubled_stop h
  | cons c text ih =>
    by_cases hc : c = q
    · subst hc
      simp [doubled, readDoubled, ih]
    · simp [doubled, hc, readDoubled_cons hc, ih]

/-- **What was read was written so**, and reading stopped for a reason. -/
theorem eq_doubled_append (q : α) (input : List α) :
    input = doubled q (readDoubled q input).1 ++ (readDoubled q input).2 ∧
      Stop q (readDoubled q input).2 := by
  induction input using readDoubled.induct (q := q) with
  | case1 => exact ⟨rfl, Or.inl rfl⟩
  | case2 => simp [readDoubled, doubled, Stop]
  | case3 c hc => simp [readDoubled, hc, doubled, Stop]
  | case4 rest ih =>
    refine ⟨?_, by simpa [readDoubled] using ih.2⟩
    simp only [readDoubled, if_true, doubled, List.cons_append]
    rw [← ih.1]
  | case5 d rest hd => simp [readDoubled, hd, doubled, Stop]
  | case6 c d rest hc ih =>
    refine ⟨?_, by simpa [readDoubled, hc] using ih.2⟩
    simp only [readDoubled, hc, if_false, doubled, List.cons_append]
    rw [← ih.1]

theorem length_rest_le (q : α) (input : List α) :
    (readDoubled q input).2.length ≤ input.length := by
  have h := congrArg List.length (eq_doubled_append q input).1
  rw [List.length_append] at h
  omega

/-! ## 2. How an escaped text begins -/

/-- **A word without `q`, closed by `q`, begins an escaped text** if it begins the text itself. -/
theorem doubled_prefix_iff {q : α} {word : List α} (hword : q ∉ word) (text tail : List α) :
    word ++ [q] <+: doubled q text ++ q :: tail ↔ word ++ [q] <+: text ++ [q] := by
  induction word generalizing text with
  | nil =>
    cases text with
    | nil => simp [doubled]
    | cons c text =>
      by_cases hc : c = q
      · simp [doubled, hc]
      · simp [doubled, hc]
  | cons w word ih =>
    simp only [List.mem_cons, not_or] at hword
    cases text with
    | nil => simp [doubled, Ne.symm hword.1]
    | cons c text =>
      by_cases hc : c = q
      · simp [doubled, hc, Ne.symm hword.1]
      · simp [doubled, hc, ih hword.2]

end PosseClient.Doubling
