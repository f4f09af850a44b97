/-
# Which occurrence a find/replace stands for

`exactSpan` against the occurrences of the text it tries: the find text where that occurs, else its
copy with the content's line ends.

* `exactVariant_of_occurs`, `exactVariant_eq_none_iff`: one variant.
* `exactSpan_eq`: the variant that decides.
* `exactSpan_unique_iff`: a span is returned exactly for a text with one occurrence, unless all
  occurrences of the text overlap the first.
-/
import PosseClient.Toolkit.EditSpans

namespace PosseClient

open Occurrences Json

variable {content find replace oldText newText : Utf16} {i : ℕ}

/-! ## 1. Texts that are not empty -/

theorem eolOf_ne_nil (content : Utf16) : eolOf content ≠ [] := by
  unfold eolOf
  split_ifs <;> simp

/-! ## 2. One variant -/

theorem exactVariant_eq_none_iff (hne : oldText ≠ []) :
    exactVariant content oldText newText = none ↔ ∀ j, ¬ OccursAt content oldText j := by
  rw [exactVariant, Option.map_eq_none_iff, indexOf_eq_none_iff hne]
  exact ⟨fun h j => h j (Nat.zero_le j), fun h j _ => h j⟩

/-- **A variant that occurs**, the first time at `i`. -/
theorem exactVariant_of_occurs (hne : oldText ≠ []) (hfirst : OccursAt content oldText i)
    (hbefore : ∀ j, j < i → ¬ OccursAt content oldText j) :
    ((∃ k, OccursAt content oldText k ∧ i + oldText.length ≤ k) ∧
      exactVariant content oldText newText = some (.error (ambiguousExactMatch content oldText))) ∨
    ((¬ ∃ k, OccursAt content oldText k ∧ i + oldText.length ≤ k) ∧
      exactVariant content oldText newText = some (.ok ⟨i, i + oldText.length, newText⟩)) := by
  have hindex : indexOf content oldText 0 = some i :=
    (indexOf_eq_some_iff hne).mpr ⟨Nat.zero_le i, hfirst, fun j _ hlt => hbefore j hlt⟩
  unfold exactVariant
  rw [hindex, Option.map_some]
  cases hnext : indexOf content oldText (i + oldText.length) with
  | none =>
    refine Or.inr ⟨?_, by simp⟩
    rintro ⟨k, hk, hle⟩
    exact (indexOf_eq_none_iff hne).mp hnext k hle hk
  | some k =>
    obtain ⟨hle, hk, -⟩ := (indexOf_eq_some_iff hne).mp hnext
    exact Or.inl ⟨⟨k, hk, hle⟩, by simp⟩

theorem ambiguousExactMatch_eq (hne : oldText ≠ []) :
    ∃ count lines, ambiguousExactMatch content oldText = .ambiguous count lines := by
  unfold ambiguousExactMatch
  rw [if_neg hne]
  exact ⟨_, _, rfl⟩

/-! ## 3. The span -/

/-- The text that decides, and what takes its place: the find text where it occurs, else its copy
with the line ends of the content. -/
def triedVariant (content find replace : Utf16) : Utf16 × Utf16 :=
  if (List.range (content.length + 1)).any fun j => decide (OccursAt content find j) then
    (find, replace)
  else (lfTo (eolOf content) (crlfToLf find), lfTo (eolOf content) (crlfToLf replace))

theorem any_range_occurs (hne : find ≠ []) :
    ((List.range (content.length + 1)).any fun j => decide (OccursAt content find j)) = true ↔
      ∃ j, OccursAt content find j := by
  simp only [List.any_eq_true, decide_eq_true_eq]
  constructor
  · rintro ⟨j, -, hocc⟩
    exact ⟨j, hocc⟩
  · rintro ⟨j, hocc⟩
    have hle := hocc.le_length hne
    exact ⟨j, List.mem_range.mpr (by omega), hocc⟩

theorem triedVariant_ne_nil (hne : find ≠ []) : (triedVariant content find replace).1 ≠ [] := by
  unfold triedVariant
  split_ifs
  · exact hne
  · exact lfTo_ne_nil (eolOf_ne_nil content) (crlfToLf_ne_nil hne)

/-- **The variant that decides.** -/
theorem exactSpan_eq (hne : find ≠ []) :
    exactSpan content (some find) (some replace) =
      (exactVariant content (triedVariant content find replace).1
        (triedVariant content find replace).2).getD (.error .notFound) := by
  simp only [exactSpan, if_neg hne]
  by_cases hoccurs : ∃ j, OccursAt content find j
  · have htried : triedVariant content find replace = (find, replace) :=
      if_pos ((any_range_occurs hne).mpr hoccurs)
    rw [htried]
    cases hvariant : exactVariant content find replace with
    | none =>
      obtain ⟨j, hj⟩ := hoccurs
      exact absurd hj ((exactVariant_eq_none_iff hne).mp hvariant j)
    | some span => rfl
  · have htried : triedVariant content find replace =
        (lfTo (eolOf content) (crlfToLf find), lfTo (eolOf content) (crlfToLf replace)) :=
      if_neg fun h => hoccurs ((any_range_occurs hne).mp h)
    have hnone : ∀ newText, exactVariant content find newText = none := fun newText =>
      (exactVariant_eq_none_iff hne).mpr fun j hj => hoccurs ⟨j, hj⟩
    rw [htried, hnone]
    dsimp only
    split_ifs with hsame
    · rfl
    · rw [not_not.mp hsame, hnone]
      rfl

/-- The result is a span exactly where the tried text occurs at one position, and then that position;
else it is the not-found error, where the text does not occur, or the ambiguity error. -/
def ResolvesUnique (content find replace : Utf16) (result : Except SpanError EditSpan) : Prop :=
  (∀ span, result = .ok span ↔
    (∀ j, OccursAt content (triedVariant content find replace).1 j ↔ j = span.start) ∧
      span.stop = span.start + (triedVariant content find replace).1.length ∧
      span.replacement = (triedVariant content find replace).2) ∧
  (result = .error .notFound ↔
    ∀ j, ¬ OccursAt content (triedVariant content find replace).1 j) ∧
  ∀ error, result = .error error → error = .notFound ∨ ∃ count lines, error = .ambiguous count lines

/-- **A find/replace stands for a unique occurrence** exactly where a text with several occurrences
has two that do not overlap. -/
theorem exactSpan_unique_iff (hne : find ≠ []) :
    ResolvesUnique content find replace (exactSpan content (some find) (some replace)) ↔
      ((∃ i j, OccursAt content (triedVariant content find replace).1 i ∧
          OccursAt content (triedVariant content find replace).1 j ∧ i ≠ j) →
        ∃ i k, OccursAt content (triedVariant content find replace).1 i ∧
          OccursAt content (triedVariant content find replace).1 k ∧
          i + (triedVariant content find replace).1.length ≤ k) := by
  have hne' : (triedVariant content find replace).1 ≠ [] := triedVariant_ne_nil hne
  have hpos : 0 < (triedVariant content find replace).1.length := List.length_pos_iff.mpr hne'
  rw [exactSpan_eq hne]
  unfold ResolvesUnique
  generalize (triedVariant content find replace).1 = oldText at *
  generalize (triedVariant content find replace).2 = newText at *
  by_cases hoccurs : ∃ j, OccursAt content oldText j
  · obtain ⟨first, hfirst, hbefore⟩ : ∃ first, OccursAt content oldText first ∧
        ∀ j, j < first → ¬ OccursAt content oldText j :=
      ⟨Nat.find hoccurs, Nat.find_spec hoccurs, fun j hlt => Nat.find_min hoccurs hlt⟩
    have hfrom : ∀ j, OccursAt content oldText j → first ≤ j :=
      fun j hj => not_lt.mp fun hlt => hbefore j hlt hj
    rcases @exactVariant_of_occurs content oldText newText first hne' hfirst hbefore with
      ⟨⟨k, hk, hle⟩, hvariant⟩ | ⟨hoverlap, hvariant⟩
    · -- two occurrences apart: the ambiguity error, and no span
      obtain ⟨count, lines, herror⟩ := @ambiguousExactMatch_eq content oldText hne'
      rw [hvariant, Option.getD_some, herror]
      refine iff_of_true ⟨fun span => iff_of_false (by simp) ?_, ?_, ?_⟩
        fun _ => ⟨first, k, hfirst, hk, hle⟩
      · rintro ⟨honly, -⟩
        have hsame := (honly first).mp hfirst
        have hsame' := (honly k).mp hk
        omega
      · exact iff_of_false (by simp) fun hnone => hnone first hfirst
      · rintro error herr
        cases herr
        exact Or.inr ⟨count, lines, rfl⟩
    · rw [hvariant, Option.getD_some]
      constructor
      · -- the span says that the first occurrence is the only one
        rintro ⟨hspan, -⟩ ⟨i, j, hi, hj, hdiff⟩
        obtain ⟨honly, -⟩ := (hspan _).mp rfl
        exact absurd (((honly i).mp hi).trans ((honly j).mp hj).symm) hdiff
      · intro hapart
        have honly : ∀ j, OccursAt content oldText j ↔ j = first := by
          refine fun j => ⟨fun hj => ?_, fun hj => hj ▸ hfirst⟩
          by_contra hdiff
          obtain ⟨i, k, hi, hk, hle⟩ := hapart ⟨j, first, hj, hfirst, hdiff⟩
          exact hoverlap ⟨k, hk, (Nat.add_le_add_right (hfrom i hi) _).trans hle⟩
        refine ⟨fun span => ?_, iff_of_false (by simp) fun hnone => hnone first hfirst, by simp⟩
        constructor
        · intro hspan
          cases hspan
          exact ⟨honly, rfl, rfl⟩
        · rintro ⟨hat, hstop, hreplacement⟩
          have hstart : first = span.start := (hat first).mp hfirst
          cases span
          simp only at hstart hstop hreplacement
          rw [hstop, hreplacement, hstart]
  · have hnone : ∀ j, ¬ OccursAt content oldText j := fun j hj => hoccurs ⟨j, hj⟩
    rw [(exactVariant_eq_none_iff hne').mpr hnone, Option.getD_none]
    refine iff_of_true ⟨fun span => iff_of_false (by simp) ?_, iff_of_true rfl hnone, ?_⟩ ?_
    · rintro ⟨honly, -⟩
      exact hnone _ ((honly _).mpr rfl)
    · rintro error herr
      cases herr
      exact Or.inl rfl
    · rintro ⟨i, -, hi, -⟩
      exact absurd hi (hnone i)

/-- A find text that occurs once. -/
theorem exactSpan_unique_iff_once :
    ResolvesUnique (units "abc") (units "b") (units "x")
      (exactSpan (units "abc") (some (units "b")) (some (units "x"))) := by
  refine (exactSpan_unique_iff (by decide)).mpr ?_
  have htried : (triedVariant (units "abc") (units "b") (units "x")).1 = [98] := by decide +kernel
  have honly : ∀ i, OccursAt (units "abc") [98] i → i = 1 := by
    intro i hi
    have hle : i + 1 ≤ 3 := hi.le_length (by simp)
    have hcases : i = 0 ∨ i = 1 ∨ i = 2 := by omega
    rcases hcases with rfl | rfl | rfl
    · exact absurd hi (by decide)
    · rfl
    · exact absurd hi (by decide)
  rintro ⟨i, j, hi, hj, hdiff⟩
  rw [htried] at hi hj
  exact absurd ((honly i hi).trans (honly j hj).symm) hdiff

/-- A text whose occurrences overlap is taken for unique. -/
theorem exactSpan_overlapping :
    ¬ ResolvesUnique (units "aaa") (units "aa") (units "b")
      (exactSpan (units "aaa") (some (units "aa")) (some (units "b"))) := by
  intro h
  have hspan : exactSpan (units "aaa") (some (units "aa")) (some (units "b")) =
      .ok ⟨0, 2, units "b"⟩ := by decide +kernel
  have htried : (triedVariant (units "aaa") (units "aa") (units "b")).1 = units "aa" := by
    decide +kernel
  have honly := ((h.1 _).mp hspan).1 1
  rw [htried] at honly
  exact absurd (honly.mp (by decide)) (by decide)

end PosseClient
