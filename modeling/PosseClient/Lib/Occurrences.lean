/-
# Occurrences of a text in a text

Where a pattern occurs in a list, overlapping occurrences counted, and the search for the first one
from a position on.

* `OccursAt.le_length`: an occurrence of a pattern that is not empty lies in the text.
* `indexOf_eq_some_iff`, `indexOf_eq_none_iff`: what the search finds.
-/
import Mathlib

namespace PosseClient.Occurrences

variable {α : Type*}

/-- The pattern occurs in the text at position `i`. -/
def OccursAt (text pattern : List α) (i : ℕ) : Prop := pattern <+: text.drop i

instance [DecidableEq α] (text pattern : List α) (i : ℕ) : Decidable (OccursAt text pattern i) :=
  inferInstanceAs (Decidable (pattern <+: text.drop i))

variable {text pattern : List α} {start i : ℕ}

theorem OccursAt.le_length (h : OccursAt text pattern i) (hne : pattern ≠ []) :
    i + pattern.length ≤ text.length := by
  have hlen := h.length_le
  rw [List.length_drop] at hlen
  have hpos := List.length_pos_iff.mpr hne
  omega

variable [DecidableEq α]

/-- The first occurrence from position `start` on. -/
def indexOf (text pattern : List α) (start : ℕ) : Option ℕ :=
  (List.range' start (text.length + 1 - start)).find? fun i => decide (OccursAt text pattern i)

/-- **What the search finds**: the first occurrence. -/
theorem indexOf_eq_some_iff (hne : pattern ≠ []) :
    indexOf text pattern start = some i ↔
      start ≤ i ∧ OccursAt text pattern i ∧ ∀ j, start ≤ j → j < i → ¬ OccursAt text pattern j := by
  unfold indexOf
  rw [List.find?_range'_eq_some]
  simp only [decide_eq_true_eq, Bool.not_eq_true', decide_eq_false_iff_not]
  constructor
  · rintro ⟨hocc, hmem, hbefore⟩
    exact ⟨(List.mem_range'_1.mp hmem).1, hocc, hbefore⟩
  · rintro ⟨hge, hocc, hbefore⟩
    have hle := hocc.le_length hne
    exact ⟨hocc, List.mem_range'_1.mpr ⟨hge, by omega⟩, hbefore⟩

/-- **Where it finds nothing**, nothing occurs. -/
theorem indexOf_eq_none_iff (hne : pattern ≠ []) :
    indexOf text pattern start = none ↔ ∀ j, start ≤ j → ¬ OccursAt text pattern j := by
  unfold indexOf
  rw [List.find?_eq_none]
  simp only [decide_eq_true_eq]
  constructor
  · intro h j hge hocc
    have hle := hocc.le_length hne
    exact h j (List.mem_range'_1.mpr ⟨hge, by omega⟩) hocc
  · exact fun h j hmem => h j (List.mem_range'_1.mp hmem).1

end PosseClient.Occurrences
