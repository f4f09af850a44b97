/-
# Where lines lie

The span of a line edit, between the boundaries of its lines.  A deletion that reaches the end of
the content begins before its first line, but not before the line in front of that.

* `boundary_lt`, `boundary_mono`: boundaries increase with the lines.
* `lineSpanAt_eq_ok`: the span of a line edit; `lineSpanAt_isOk_iff` says when it has one.
-/
import PosseClient.Toolkit.BatchEdits

namespace PosseClient

open Json

variable {content body : Utf16} {edit : LineEdit} {span : EditSpan} {i k m : ℕ}

/-! ## 1. The lines of a body -/

theorem mem_startsAfter {p : ℕ} :
    p ∈ startsAfter i body ↔ ∃ q, body[q]? = some 10 ∧ p = i + q + 1 := by
  induction body generalizing i with
  | nil => simp [startsAfter]
  | cons u rest ih =>
    have hcons : (∃ q, (u :: rest)[q]? = some 10 ∧ p = i + q + 1) ↔
        (u = 10 ∧ p = i + 1) ∨ ∃ q, rest[q]? = some 10 ∧ p = i + 1 + q + 1 := by
      constructor
      · rintro ⟨q, hq, rfl⟩
        cases q with
        | zero => exact Or.inl ⟨by simpa using hq, rfl⟩
        | succ q => exact Or.inr ⟨q, by simpa using hq, by omega⟩
      · rintro (⟨rfl, rfl⟩ | ⟨q, hq, rfl⟩)
        · exact ⟨0, rfl, rfl⟩
        · exact ⟨q + 1, by simpa using hq, by omega⟩
    rw [hcons, startsAfter]
    split
    case isTrue hu => rw [List.mem_cons, ih]; simp [hu]
    case isFalse hu => rw [ih]; simp [hu]

theorem pairwise_startsAfter : (startsAfter i body).Pairwise (· < ·) := by
  induction body generalizing i with
  | nil => exact .nil
  | cons u rest ih =>
    rw [startsAfter]
    split
    case isFalse => exact ih
    case isTrue =>
      refine List.pairwise_cons.mpr ⟨fun p hp => ?_, ih⟩
      obtain ⟨q, -, rfl⟩ := mem_startsAfter.mp hp
      omega

theorem pairwise_lineStarts : (lineStarts body).Pairwise (· < ·) := by
  unfold lineStarts
  split_ifs
  · exact .nil
  · refine List.pairwise_cons.mpr ⟨fun p hp => ?_, pairwise_startsAfter⟩
    obtain ⟨q, -, rfl⟩ := mem_startsAfter.mp hp
    omega

/-- A line begins at the start, or behind a line feed. -/
theorem mem_lineStarts {p : ℕ} (h : p ∈ lineStarts body) :
    p = 0 ∨ ∃ q, body[q]? = some 10 ∧ p = q + 1 := by
  unfold lineStarts at h
  split_ifs at h
  · cases h
  · rcases List.mem_cons.mp h with rfl | h
    · exact Or.inl rfl
    · obtain ⟨q, hq, rfl⟩ := mem_startsAfter.mp h
      exact Or.inr ⟨q, hq, by omega⟩

theorem le_length_of_mem_lineStarts {p : ℕ} (h : p ∈ lineStarts body) : p ≤ body.length := by
  rcases mem_lineStarts h with rfl | ⟨q, hq, rfl⟩
  · exact Nat.zero_le _
  · exact (List.getElem?_eq_some_iff.mp hq).1

/-- Where line `k + 1` begins; behind the last line, where the body ends. -/
def boundary (body : Utf16) (k : ℕ) : ℕ := (lineStarts body).getD k body.length

theorem boundary_of_lt (h : k < (lineStarts body).length) :
    boundary body k = (lineStarts body)[k] := by
  simp [boundary, List.getD_eq_getElem?_getD, h]

theorem boundary_of_le (h : (lineStarts body).length ≤ k) : boundary body k = body.length := by
  simp [boundary, List.getD_eq_getElem?_getD, h]

theorem boundary_le_length (body : Utf16) (k : ℕ) : boundary body k ≤ body.length := by
  by_cases h : k < (lineStarts body).length
  · rw [boundary_of_lt h]
    exact le_length_of_mem_lineStarts (List.getElem_mem h)
  · exact (boundary_of_le (by omega)).le

/-- **Boundaries increase**, up to the last line. -/
theorem boundary_lt (hkm : k < m) (hm : m < (lineStarts body).length) :
    boundary body k < boundary body m := by
  rw [boundary_of_lt (hkm.trans hm), boundary_of_lt hm]
  exact List.pairwise_iff_getElem.mp pairwise_lineStarts k m _ _ hkm

theorem boundary_mono (hkm : k ≤ m) : boundary body k ≤ boundary body m := by
  rcases Nat.lt_or_eq_of_le hkm with hlt | rfl
  · by_cases hm : m < (lineStarts body).length
    · exact (boundary_lt hlt hm).le
    · have hend : boundary body m = body.length := boundary_of_le (by omega)
      rw [hend]
      exact boundary_le_length body k
  · exact le_rfl

theorem boundary_zero : boundary body 0 = 0 := by
  unfold boundary lineStarts
  split_ifs with h <;> simp [h]

/-- The separator in front of a line lies behind the line before it. -/
theorem separator_le (hk : k + 1 < (lineStarts body).length) :
    boundary body k + (if sliceUnits body (boundary body (k + 1) - 2) (boundary body (k + 1)) =
      [13, 10] then 2 else 1) ≤ boundary body (k + 1) := by
  have hlt : boundary body k < boundary body (k + 1) := boundary_lt (Nat.lt_succ_self k) hk
  split_ifs with hcrlf
  · -- the line before does not begin between the two units
    by_contra hnot
    have hat : boundary body k + 1 = boundary body (k + 1) := by omega
    have hmem : boundary body k ∈ lineStarts body := by
      rw [boundary_of_lt (by omega)]
      exact List.getElem_mem _
    rw [← hat] at hcrlf
    unfold sliceUnits at hcrlf
    rcases mem_lineStarts hmem with hzero | ⟨q, hq, hp⟩
    · rw [hzero] at hcrlf
      have hlen := congrArg List.length hcrlf
      simp at hlen
      omega
    · rw [hp, show q + 1 + 1 - 2 = q by omega, show q + 1 + 1 - q = 2 by omega] at hcrlf
      have hhead := congrArg (fun l => l[0]?) hcrlf
      simp [hq] at hhead
  · omega

/-! ## 2. The span of a line edit -/

/-- The lines are in the content, or the one line of an empty content is meant. -/
def LineEdit.InRange (body : Utf16) (edit : LineEdit) : Prop :=
  edit.last ≤ (lineStarts body).length ∨
    ((lineStarts body).length = 0 ∧ edit.first = 1 ∧ edit.last = 1)

/-- The lines of an edit that was checked. -/
structure LineEdit.Ordered (edit : LineEdit) : Prop where
  one_le : 1 ≤ edit.first
  first_le : edit.first ≤ edit.last

theorem inRange_iff {n : ℕ} : ¬ (¬ decide (n = 0 ∧ edit.first = 1 ∧ edit.last = 1) = true ∧
    n < edit.last) ↔ edit.last ≤ n ∨ (n = 0 ∧ edit.first = 1 ∧ edit.last = 1) := by
  rw [decide_eq_true_eq]
  omega

theorem lineSpanAt_isOk_iff :
    (∃ span, lineSpanAt content edit = .ok span) ↔ edit.InRange (bodyOf content) := by
  unfold lineSpanAt LineEdit.InRange
  rw [← inRange_iff]
  dsimp only
  by_cases hout : ¬ decide ((lineStarts (bodyOf content)).length = 0 ∧ edit.first = 1 ∧
      edit.last = 1) = true ∧ (lineStarts (bodyOf content)).length < edit.last
  · rw [if_pos hout]
    exact ⟨fun hok => (nomatch hok.choose_spec), fun hnot => absurd hout hnot⟩
  · rw [if_neg hout]
    exact ⟨fun _ => hout, fun _ => ⟨_, rfl⟩⟩

/-- **The span of a line edit** lies between the boundaries of its lines, unless it is a deletion
that reaches the end: then it begins in the separator before them. -/
structure SpansLines (body : Utf16) (edit : LineEdit) (span : EditSpan) : Prop where
  stop : span.stop = boundary body edit.last
  start : span.start = boundary body (edit.first - 1) ∨
    (span.replacement = [] ∧ edit.last = (lineStarts body).length ∧ 1 < edit.first ∧
      boundary body (edit.first - 2) ≤ span.start ∧
      span.start ≤ boundary body (edit.first - 1))

theorem lineSpanAt_eq_ok (ho : edit.Ordered) (h : lineSpanAt content edit = .ok span) :
    SpansLines (bodyOf content) edit span := by
  have hrange := lineSpanAt_isOk_iff.mp ⟨span, h⟩
  have hone := ho.one_le
  have hfirst := ho.first_le
  unfold lineSpanAt at h
  dsimp only at h
  rw [if_neg (inRange_iff.mpr hrange)] at h
  generalize bodyOf content = body at h hrange
  obtain rfl := Except.ok.inj h
  have hstop : (if edit.last < (lineStarts body).length then (lineStarts body).getD edit.last 0
      else body.length) = boundary body edit.last := by
    split_ifs with hlast
    · simp [boundary, List.getD_eq_getElem?_getD, hlast]
    · exact (boundary_of_le (by omega)).symm
  have hstart : (if decide ((lineStarts body).length = 0 ∧ edit.first = 1 ∧ edit.last = 1) = true
      then 0 else (lineStarts body).getD (edit.first - 1) 0) = boundary body (edit.first - 1) := by
    split_ifs with hempty
    · simp only [decide_eq_true_eq] at hempty
      rw [hempty.2.1, boundary_zero]
    · simp only [decide_eq_true_eq] at hempty
      have hlt : edit.first - 1 < (lineStarts body).length := by
        rcases hrange with hle | hone
        · omega
        · exact absurd hone hempty
      simp [boundary, List.getD_eq_getElem?_getD, hlt]
  refine ⟨hstop, ?_⟩
  simp only [hstart]
  by_cases hdelete : lineReplacement content edit.content = [] ∧
      edit.last = (lineStarts body).length ∧ 1 < edit.first
  case neg =>
    rw [if_neg hdelete]
    exact Or.inl rfl
  case pos =>
    rw [if_pos hdelete]
    obtain ⟨hnil, hlast, hlt⟩ := hdelete
    have hseparator := @separator_le body (edit.first - 2) (by omega)
    rw [show edit.first - 2 + 1 = edit.first - 1 by omega] at hseparator
    refine Or.inr ⟨by simp [hnil], hlast, hlt, ?_, by omega⟩
    split_ifs at hseparator ⊢ with hcrlf <;> omega

end PosseClient
