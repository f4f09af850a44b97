/-
# Texts as rows

A text cut into rows, each with what ends it.  `ends u rest` says whether a row is over after the unit
`u`, with `rest` to come, so that one definition serves every notion of a terminator.

* `rowsBy_flatten`: the rows are the text.
* `rowsBy_ends`: a row that is not the last ends as `ends` says.
* `rowsBy_append`, `rowsBy_drop`, `rowsBy_infix`: the rows of the parts of a text, for an `ends` that
  looks one unit ahead.
-/
import Mathlib

namespace PosseClient.Rows

variable {α : Type*} (ends : α → List α → Bool)

/-! ## 1. Cutting -/

/-- The rows of a text, with their terminators; what follows the last terminator is a row if there is
any. -/
def rowsBy : List α → List (List α)
  | [] => []
  | u :: rest =>
    if ends u rest then [u] :: rowsBy rest
    else
      match rowsBy rest with
      | [] => [[u]]
      | row :: rows => (u :: row) :: rows

variable {ends} {u : α} {text rest : List α}

theorem rowsBy_cons_of_ends (h : ends u rest = true) :
    rowsBy ends (u :: rest) = [u] :: rowsBy ends rest := if_pos h

theorem rowsBy_cons_of_not_ends (h : ends u rest = false) :
    rowsBy ends (u :: rest) =
      match rowsBy ends rest with
      | [] => [[u]]
      | row :: rows => (u :: row) :: rows := if_neg (by rw [h]; exact Bool.false_ne_true)

theorem rowsBy_eq_nil_iff : rowsBy ends text = [] ↔ text = [] := by
  cases text with
  | nil => simp [rowsBy]
  | cons u rest =>
    cases h : ends u rest with
    | true => simp [rowsBy_cons_of_ends h]
    | false =>
      rw [rowsBy_cons_of_not_ends h]
      cases rowsBy ends rest <;> simp

theorem rowsBy_flatten (text : List α) : (rowsBy ends text).flatten = text := by
  induction text with
  | nil => rfl
  | cons u rest ih =>
    cases h : ends u rest with
    | true => simp [rowsBy_cons_of_ends h, ih]
    | false =>
      rw [rowsBy_cons_of_not_ends h]
      cases hrows : rowsBy ends rest with
      | nil => simp [rowsBy_eq_nil_iff.mp hrows]
      | cons row rows =>
        rw [hrows] at ih
        simpa using ih

theorem ne_nil_of_mem_rowsBy {row : List α} (h : row ∈ rowsBy ends text) : row ≠ [] := by
  induction text generalizing row with
  | nil => cases h
  | cons u rest ih =>
    cases hends : ends u rest with
    | true =>
      rw [rowsBy_cons_of_ends hends] at h
      rcases List.mem_cons.mp h with rfl | h
      · simp
      · exact ih h
    | false =>
      rw [rowsBy_cons_of_not_ends hends] at h
      cases hrows : rowsBy ends rest with
      | nil =>
        rw [hrows] at h
        simp [List.mem_singleton.mp h]
      | cons first rows =>
        rw [hrows] at h
        rcases List.mem_cons.mp h with rfl | h
        · simp
        · exact ih (by rw [hrows]; exact List.mem_cons_of_mem _ h)

/-- **A row that is not the last** ends as `ends` says, before the rows to come. -/
theorem rowsBy_ends {before after : List (List α)} {row : List α}
    (h : rowsBy ends text = before ++ row :: after) (hafter : after ≠ []) :
    ∃ init u, row = init ++ [u] ∧ ends u after.flatten = true := by
  induction text generalizing before row with
  | nil => simp [rowsBy] at h
  | cons u rest ih =>
    cases hends : ends u rest with
    | true =>
      rw [rowsBy_cons_of_ends hends] at h
      cases before with
      | nil =>
        obtain ⟨rfl, hrest⟩ := List.cons.inj h
        refine ⟨[], u, rfl, ?_⟩
        rw [← hrest, rowsBy_flatten]
        exact hends
      | cons first before => exact ih (List.cons.inj h).2
    | false =>
      rw [rowsBy_cons_of_not_ends hends] at h
      cases hrows : rowsBy ends rest with
      | nil =>
        rw [hrows] at h
        cases before with
        | nil => exact absurd (List.cons.inj h).2.symm hafter
        | cons first before => simp at h
      | cons first rows =>
        rw [hrows] at h
        cases before with
        | nil =>
          obtain ⟨rfl, rfl⟩ := List.cons.inj h
          have hsplit : rowsBy ends rest = [] ++ first :: rows := hrows
          obtain ⟨init, v, rfl, hv⟩ := ih hsplit
          exact ⟨u :: init, v, rfl, hv⟩
        | cons first' before =>
          obtain ⟨-, hrest⟩ := List.cons.inj h
          have hsplit : rowsBy ends rest = (first :: before) ++ row :: after :=
            hrows.trans (congrArg (first :: ·) hrest)
          exact ih hsplit

/-! ## 2. Parts of a text -/

/-- The rows of what follows a point inside a row. -/
theorem rowsBy_drop {before after : List (List α)} {head tail : List α} (htail : tail ≠ [])
    (h : rowsBy ends text = before ++ (head ++ tail) :: after) :
    rowsBy ends (tail ++ after.flatten) = tail :: after := by
  induction text generalizing before head with
  | nil => simp [rowsBy] at h
  | cons u rest ih =>
    cases hends : ends u rest with
    | true =>
      rw [rowsBy_cons_of_ends hends] at h
      cases before with
      | nil =>
        obtain ⟨hrow, hafter⟩ := List.cons.inj h
        have htail' : tail = [u] := by
          rcases List.append_eq_singleton_iff.mp hrow.symm with ⟨-, ht⟩ | ⟨-, ht⟩
          · exact ht
          · exact absurd ht htail
        rw [htail', ← hafter, rowsBy_flatten, List.singleton_append, rowsBy_cons_of_ends hends]
      | cons first before => exact ih (List.cons.inj h).2
    | false =>
      rw [rowsBy_cons_of_not_ends hends] at h
      cases hrows : rowsBy ends rest with
      | nil =>
        obtain rfl := rowsBy_eq_nil_iff.mp hrows
        rw [hrows] at h
        cases before with
        | nil =>
          obtain ⟨hrow, hafter⟩ := List.cons.inj h
          have htail' : tail = [u] := by
            rcases List.append_eq_singleton_iff.mp hrow.symm with ⟨-, ht⟩ | ⟨-, ht⟩
            · exact ht
            · exact absurd ht htail
          rw [htail', ← hafter, List.flatten_nil, List.append_nil, rowsBy_cons_of_not_ends hends,
            hrows]
        | cons first before => simp at h
      | cons first rows =>
        rw [hrows] at h
        cases before with
        | nil =>
          obtain ⟨hrow, rfl⟩ := List.cons.inj h
          cases head with
          | nil =>
            rw [List.nil_append] at hrow
            have hflat : tail ++ rows.flatten = u :: rest := by
              rw [← hrow, List.cons_append, ← List.flatten_cons, ← hrows, rowsBy_flatten]
            rw [hflat, rowsBy_cons_of_not_ends hends, hrows, ← hrow]
          | cons v head =>
            have hfirst : first = head ++ tail := (List.cons.inj hrow).2
            have hsplit : rowsBy ends rest = [] ++ (head ++ tail) :: rows := by
              rw [hrows, hfirst, List.nil_append]
            exact ih hsplit
        | cons first' before =>
          obtain ⟨-, hrest⟩ := List.cons.inj h
          have hsplit : rowsBy ends rest = (first :: before) ++ (head ++ tail) :: after :=
            hrows.trans (congrArg (first :: ·) hrest)
          exact ih hsplit

section Ahead

/-- `ends` looks at the next unit only, and a row that is over before some text is over at the end. -/
structure LooksAhead (ends : α → List α → Bool) : Prop where
  next : ∀ u v rest rest', ends u (v :: rest) = ends u (v :: rest')
  last : ∀ u rest, ends u rest = true → ends u [] = true

variable (hends : LooksAhead ends)

include hends

/-- **The rows of two texts** the first of which is over before the second. -/
theorem rowsBy_append {text' : List α}
    (hclosed : ∀ u, text.getLast? = some u → ends u text' = true) :
    rowsBy ends (text ++ text') = rowsBy ends text ++ rowsBy ends text' := by
  induction text with
  | nil => rfl
  | cons u rest ih =>
    cases rest with
    | nil =>
      have hu : ends u text' = true := hclosed u rfl
      rw [List.singleton_append, rowsBy_cons_of_ends hu, rowsBy_cons_of_ends (hends.last u _ hu)]
      rfl
    | cons v rest =>
      have ih' := ih fun w hw => hclosed w (by rw [List.getLast?_cons_cons]; exact hw)
      have hsame : ends u ((v :: rest) ++ text') = ends u (v :: rest) := hends.next u v _ _
      rw [List.cons_append]
      cases hu : ends u (v :: rest) with
      | true =>
        rw [rowsBy_cons_of_ends (hsame.trans hu), rowsBy_cons_of_ends hu, ih', List.cons_append]
      | false =>
        rw [rowsBy_cons_of_not_ends (hsame.trans hu), rowsBy_cons_of_not_ends hu, ih']
        cases hrows : rowsBy ends (v :: rest) with
        | nil => exact absurd (rowsBy_eq_nil_iff.mp hrows) (List.cons_ne_nil _ _)
        | cons row rows => rfl

/-- A text that starts with a row's end is over before what follows it. -/
theorem ends_of_last {before after : List (List α)} {rest : List α} {u : α}
    (h : rowsBy ends text = before ++ after) (hlast : before.flatten.getLast? = some u)
    (hrest : rest ≠ []) (hstart : rest <+: after.flatten) : ends u rest = true := by
  rcases List.eq_nil_or_concat before with rfl | ⟨init, last, rfl⟩
  · cases hlast
  · rw [List.concat_eq_append, List.append_assoc, List.singleton_append] at h
    have hafter : after ≠ [] := by
      rintro rfl
      exact hrest (List.prefix_nil.mp hstart)
    obtain ⟨pre, v, rfl, hv⟩ := rowsBy_ends h hafter
    have huv : u = v := by
      rw [List.concat_eq_append, List.flatten_append, List.flatten_singleton, ← List.append_assoc,
        List.getLast?_concat] at hlast
      exact (Option.some.inj hlast).symm
    subst huv
    obtain ⟨tail, htail⟩ := hstart
    cases rest with
    | nil => exact absurd rfl hrest
    | cons w rest =>
      rw [← htail, List.cons_append] at hv
      rw [hends.next u w rest (rest ++ tail)]
      exact hv

/-- The first rows of a text are rows. -/
theorem rowsBy_take {before after : List (List α)} (h : rowsBy ends text = before ++ after) :
    rowsBy ends before.flatten = before ∧ rowsBy ends after.flatten = after := by
  have hafter : rowsBy ends after.flatten = after := by
    cases after with
    | nil => rfl
    | cons row after =>
      have hrow : row ≠ [] := by
        have hmem : row ∈ rowsBy ends text := by
          rw [h]
          simp
        exact ne_nil_of_mem_rowsBy hmem
      have hsplit : rowsBy ends text = before ++ ([] ++ row) :: after := h
      exact rowsBy_drop hrow hsplit
  refine ⟨?_, hafter⟩
  have htext : text = before.flatten ++ after.flatten := by
    rw [← List.flatten_append, ← h, rowsBy_flatten]
  by_cases hnil : after.flatten = []
  · have hempty : after = [] := by
      rw [hnil] at hafter
      exact hafter.symm
    rw [hempty, List.append_nil] at h
    rw [← h, rowsBy_flatten, h]
  · have happend : rowsBy ends (before.flatten ++ after.flatten) =
        rowsBy ends before.flatten ++ rowsBy ends after.flatten :=
      rowsBy_append hends fun u hu => ends_of_last hends h hu hnil (List.prefix_refl _)
    rw [← htext, h, hafter] at happend
    exact (List.append_cancel_right happend).symm

/-- **Rows in the middle of a text are rows.** -/
theorem rowsBy_infix {before middle after : List (List α)}
    (h : rowsBy ends text = before ++ (middle ++ after)) : rowsBy ends middle.flatten = middle :=
  (rowsBy_take hends (rowsBy_take hends h).2).1

/-- **The rows of the beginning of a text**: whole rows, and those of what is left. -/
theorem rowsBy_prefix {before after : List (List α)} {rest : List α}
    (h : rowsBy ends text = before ++ after) (hstart : rest <+: after.flatten) :
    rowsBy ends (before.flatten ++ rest) = before ++ rowsBy ends rest := by
  by_cases hrest : rest = []
  · subst hrest
    rw [List.append_nil, (rowsBy_take hends h).1]
    simp [rowsBy]
  · rw [rowsBy_append hends fun u hu => ends_of_last hends h hu hrest hstart,
      (rowsBy_take hends h).1]

end Ahead

end PosseClient.Rows
