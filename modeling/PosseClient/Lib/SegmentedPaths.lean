/-
# Paths of segments

A path is a list of symbols cut into segments by a separator.  `Below root path` says that
`path` is `root` or lies under it: with a separator behind both, the one is a prefix of the other,
so that no segment is cut in two.

* `below_iff` is the test programs make: equal, or a prefix that ends at a separator.
* `exists_below_iff`: two roots have a path in common exactly when one lies below the other.
-/
import Mathlib

namespace PosseClient.SegmentedPaths

variable {α : Type*} {sep : α} {p q r root path : List α}

/-- `path` is `root` or a path under it. -/
def Below (sep : α) (root path : List α) : Prop := root ++ [sep] <+: path ++ [sep]

theorem Below.refl (sep : α) (p : List α) : Below sep p p := List.prefix_rfl

theorem Below.trans (h : Below sep p q) (h' : Below sep q r) : Below sep p r :=
  List.IsPrefix.trans h h'

theorem below_iff : Below sep root path ↔ root ++ [sep] <+: path ∨ path = root := by
  unfold Below
  constructor
  · intro h
    by_cases hlen : (root ++ [sep]).length ≤ path.length
    · exact Or.inl (List.prefix_of_prefix_length_le h (List.prefix_append path [sep]) hlen)
    · right
      have hle := h.length_le
      have hlength : (root ++ [sep]).length = (path ++ [sep]).length := by
        simp only [List.length_append, List.length_singleton] at hlen hle ⊢
        omega
      exact (List.append_cancel_right (h.eq_of_length hlength)).symm
  · rintro (h | rfl)
    · exact h.trans (List.prefix_append path [sep])
    · exact List.prefix_rfl

/-- **Roots that share a path.** -/
theorem exists_below_iff :
    (∃ path, Below sep p path ∧ Below sep q path) ↔ Below sep p q ∨ Below sep q p := by
  constructor
  · rintro ⟨path, hp, hq⟩
    exact List.prefix_or_prefix_of_prefix hp hq
  · rintro (h | h)
    · exact ⟨q, h, Below.refl sep q⟩
    · exact ⟨p, Below.refl sep p, h⟩

/-- What begins a root begins every path below it. -/
theorem Below.head (h : Below sep root path) (hne : root ≠ []) : path.head? = root.head? := by
  obtain ⟨x, xs, rfl⟩ := List.exists_cons_of_ne_nil hne
  cases path with
  | nil =>
    have hlen := List.IsPrefix.length_le h
    simp at hlen
  | cons y ys =>
    rw [Below, List.cons_append, List.cons_append, List.cons_prefix_cons] at h
    simp [h.1]

end PosseClient.SegmentedPaths
