/-
# The plan partitions the request

The ranges of a coverage plan as spans of lines: the merging loop is the merging of spans and the
second loop takes their gaps, so that the covered and the uncovered ranges are separated, hold every
requested line between them, and the covered ones hold exactly the lines that were shown.

* `mergeFragments_span`, `uncoveredFrom_span`: the loops, read as operations on spans.
* `CoverageOwner.mem_fragments`: where a fragment comes from.
* `mergeFragments_refs`: the refs of a covered range.
* `interval_plan_partitions`: the plan.
-/
import PosseClient.Lib.Spans
import PosseClient.Research.CoveragePlan

namespace PosseClient

open Spans

/-! ## 1. Ranges as spans -/

/-- The lines of a fragment. -/
def Fragment.span (fragment : Fragment) : Span ℤ := ⟨fragment.startLine, fragment.endLine + 1⟩

/-- The lines of a covered range. -/
def CoveredRange.span (range : CoveredRange) : Span ℤ := ⟨range.startLine, range.endLine + 1⟩

/-- The lines of an uncovered range. -/
def LineRange.span (range : LineRange) : Span ℤ := ⟨range.startLine, range.endLine + 1⟩

theorem mergeFragment_span (coveredRanges : List CoveredRange) (fragment : Fragment) :
    (mergeFragment coveredRanges fragment).map CoveredRange.span =
      mergeInto (coveredRanges.map CoveredRange.span) fragment.span := by
  cases coveredRanges with
  | nil => rfl
  | cons previous earlier =>
    rw [List.map_cons, mergeInto_cons]
    unfold mergeFragment
    dsimp only
    by_cases htouch : fragment.startLine ≤ previous.endLine + 1
    · have hgap : ¬ previous.span.stop < fragment.span.start := not_lt.mpr htouch
      have hmax : max previous.endLine fragment.endLine + 1 =
          max (previous.endLine + 1) (fragment.endLine + 1) := by omega
      rw [if_pos htouch, if_neg hgap, List.map_cons]
      congr 1
      exact congrArg (Span.mk previous.startLine) hmax
    · have hgap : previous.span.stop < fragment.span.start := not_le.mp htouch
      rw [if_neg htouch, if_pos hgap]
      rfl

/-- **The first loop** merges the lines of the fragments. -/
theorem mergeFragments_span (fragments : List Fragment) :
    (mergeFragments fragments).map CoveredRange.span =
      mergeSorted (fragments.map Fragment.span) := by
  have hfold : ∀ coveredRanges : List CoveredRange,
      (fragments.foldl mergeFragment coveredRanges).map CoveredRange.span =
        (fragments.map Fragment.span).foldl mergeInto (coveredRanges.map CoveredRange.span) := by
    induction fragments with
    | nil => exact fun coveredRanges => rfl
    | cons fragment fragments ih =>
      intro coveredRanges
      rw [List.foldl_cons, ih, mergeFragment_span]
      rfl
  rw [mergeFragments, mergeSorted, List.map_reverse, hfold]
  rfl

/-- **The second loop** takes the gaps. -/
theorem uncoveredFrom_span (requestedEnd cursor : ℤ) (coveredRanges : List CoveredRange) :
    (uncoveredFrom requestedEnd cursor coveredRanges).map LineRange.span =
      gaps (requestedEnd + 1) cursor (coveredRanges.map CoveredRange.span) := by
  induction coveredRanges generalizing cursor with
  | nil =>
    unfold uncoveredFrom
    by_cases hleft : cursor ≤ requestedEnd
    · rw [if_pos hleft]
      simp [gaps, LineRange.span, Int.lt_add_one_iff.mpr hleft]
    · have hnone : ¬ cursor < requestedEnd + 1 := by omega
      rw [if_neg hleft]
      simp [gaps, hnone]
  | cons range coveredRanges ih =>
    unfold uncoveredFrom
    rw [List.map_cons, gaps]
    dsimp only
    by_cases hgap : cursor < range.startLine
    · have hstart : cursor < range.span.start := hgap
      rw [if_pos hgap, if_pos hstart, List.map_cons, ih]
      simp [LineRange.span, CoveredRange.span]
    · have hstart : ¬ cursor < range.span.start := hgap
      rw [if_neg hgap, if_neg hstart, ih]
      rfl

theorem foldl_coveredLines (coveredRanges : List CoveredRange) (total : ℤ) :
    coveredRanges.foldl (fun total range => total + range.endLine - range.startLine + 1) total =
      total + ((coveredRanges.map CoveredRange.span).map fun s => s.stop - s.start).sum := by
  induction coveredRanges generalizing total with
  | nil => simp
  | cons range coveredRanges ih =>
    rw [List.foldl_cons, ih]
    simp only [List.map_cons, List.sum_cons, CoveredRange.span]
    ring

/-! ## 2. Lines that were shown -/

/-- The lines between two bounds; none where a bound is missing. -/
def InBounds (startLine endLine : Option ℤ) (line : ℤ) : Prop :=
  ∃ first ∈ startLine, ∃ last ∈ endLine, first ≤ line ∧ line ≤ last

/-- A coverage row of this agent call whose lines may be subtracted from a read of the file: it was
delivered or reused, is suppressive, and is of the repository, the file and its present version. -/
structure CoverageOwner.Shows (owner : CoverageOwner) (fresh : FreshSource) (relative : String)
    (row : CoverageRow) : Prop where
  recorded : row ∈ owner.observations
  observation : row.observationType = coverageObservation
  identified : owner.workItemId.isSome ∧ owner.jobId.isSome ∧ owner.attemptId.isSome ∧
    owner.agentCallId.isSome
  call : row.workItemId = owner.workItemId ∧ row.jobId = owner.jobId ∧
    row.attemptId = owner.attemptId ∧ row.detail.agentCallId = owner.agentCallId
  reusable : row.detail.deliveryState = "delivered" ∨ row.detail.deliveryState = "reused"
  suppressive : row.detail.suppressive ≠ some false
  repository : row.detail.repositoryIdentity = owner.repositoryIdentity
  version : row.detail.sourceVersion = fresh.sourceVersion
  file : normalizePath row.detail.repoRelPath = relative

/-- The line was shown: by a row, or by a range of the running response. -/
def CoverageOwner.Shown (owner : CoverageOwner) (fresh : FreshSource) (relative : String)
    (additionalCoveredRanges : List LineBounds) (line : ℤ) : Prop :=
  (∃ row, owner.Shows fresh relative row ∧
      InBounds row.detail.startLine row.detail.endLine line) ∨
    ∃ range ∈ additionalCoveredRanges, InBounds range.startLine range.endLine line

variable {owner : CoverageOwner} {fresh : FreshSource} {relative : String} {row : CoverageRow}
  {requestedStart requestedEnd line : ℤ} {additionalCoveredRanges : List LineBounds}
  {fragment : Fragment}

theorem CoverageOwner.mem_rows : row ∈ owner.rows ∧ owner.subtracts fresh relative row = true ↔
    owner.Shows fresh relative row := by
  unfold rows
  constructor
  · rintro ⟨hmem, hsub⟩
    split_ifs at hmem with hnone
    · cases hmem
    · rw [List.mem_mergeSort, List.mem_filter, decide_eq_true_eq] at hmem
      obtain ⟨hrecorded, hitem, hjob, hattempt, htype, hcall⟩ := hmem
      simp only [subtracts, isReusableCoverageState, Bool.and_eq_true, Bool.or_eq_true,
        decide_eq_true_eq] at hsub
      obtain ⟨⟨⟨⟨⟨-, hstate⟩, hsuppressive⟩, hrepository⟩, hversion⟩, hfile⟩ := hsub
      simp only [Option.isNone_iff_eq_none, not_or, ← ne_eq, Option.ne_none_iff_isSome] at hnone
      obtain ⟨hj, ha, hw, hc⟩ := hnone
      exact ⟨hrecorded, htype, ⟨hw, hj, ha, hc⟩, ⟨hitem, hjob, hattempt, hcall⟩, hstate,
        hsuppressive, hrepository, hversion, hfile⟩
  · intro h
    obtain ⟨hw, hj, ha, hc⟩ := h.identified
    obtain ⟨hitem, hjob, hattempt, hcall⟩ := h.call
    have hsome : ¬ (owner.jobId.isNone = true ∨ owner.attemptId.isNone = true ∨
        owner.workItemId.isNone = true ∨ owner.agentCallId.isNone = true) := by
      simp only [Option.isNone_iff_eq_none, not_or, ← ne_eq, Option.ne_none_iff_isSome]
      exact ⟨hj, ha, hw, hc⟩
    rw [if_neg hsome, List.mem_mergeSort, List.mem_filter, decide_eq_true_eq]
    refine ⟨⟨h.recorded, hitem, hjob, hattempt, h.observation, hcall⟩, ?_⟩
    simp only [subtracts, isReusableCoverageState, Bool.and_eq_true, Bool.or_eq_true,
      decide_eq_true_eq]
    exact ⟨⟨⟨⟨⟨⟨hjob, hattempt⟩, h.reusable⟩, h.suppressive⟩, h.repository⟩, h.version⟩, h.file⟩

/-- What is left of a range is what it has of the request. -/
theorem clipLines_spec {startLine endLine : Option ℤ} :
    (∃ lines, clipLines requestedStart requestedEnd startLine endLine = some lines ∧
      lines.1 ≤ line ∧ line ≤ lines.2) ↔
      (requestedStart ≤ line ∧ line ≤ requestedEnd) ∧ InBounds startLine endLine line := by
  unfold InBounds
  cases startLine with
  | none => simp [clipLines]
  | some startLine =>
    cases endLine with
    | none => simp [clipLines]
    | some endLine =>
      simp only [clipLines, Option.mem_def, Option.some.injEq, exists_eq_left']
      split_ifs
      · simp only [false_and, exists_false, false_iff]
        omega
      · simp only [Option.some.injEq, exists_eq_left']
        omega

theorem clipLines_bounds {startLine endLine : Option ℤ} {lines : ℤ × ℤ}
    (h : clipLines requestedStart requestedEnd startLine endLine = some lines) :
    requestedStart ≤ lines.1 ∧ lines.1 ≤ lines.2 ∧ lines.2 ≤ requestedEnd := by
  unfold clipLines at h
  split at h
  · dsimp only at h
    split_ifs at h
    cases h
    omega
  · cases h

/-! ## 3. Fragments -/

/-- **Where a fragment comes from**: a row that may be subtracted, or a range of the response. -/
theorem CoverageOwner.mem_fragments :
    fragment ∈ owner.fragments fresh relative requestedStart requestedEnd additionalCoveredRanges ↔
      (∃ row, owner.Shows fresh relative row ∧
        rowFragment requestedStart requestedEnd row = some fragment) ∨
      ∃ range ∈ additionalCoveredRanges,
        rangeFragment requestedStart requestedEnd range = some fragment := by
  unfold fragments
  rw [List.mem_mergeSort, List.mem_append, List.mem_filterMap, List.mem_filterMap]
  refine or_congr_left (exists_congr fun row => and_congr_left fun _ => ?_)
  rw [List.mem_filter]
  exact mem_rows

/-- A fragment lies in the request. -/
theorem CoverageOwner.fragment_bounds
    (h : fragment ∈ owner.fragments fresh relative requestedStart requestedEnd
      additionalCoveredRanges) :
    requestedStart ≤ fragment.startLine ∧ fragment.startLine ≤ fragment.endLine ∧
      fragment.endLine ≤ requestedEnd := by
  rcases mem_fragments.mp h with ⟨row, -, hrow⟩ | ⟨range, -, hrange⟩
  · obtain ⟨lines, hlines, rfl⟩ := Option.map_eq_some_iff.mp hrow
    exact clipLines_bounds hlines
  · obtain ⟨lines, hlines, rfl⟩ := Option.map_eq_some_iff.mp hrange
    exact clipLines_bounds hlines

/-- **The fragments hold the requested lines that were shown.** -/
theorem CoverageOwner.covers_fragments :
    Covers ((owner.fragments fresh relative requestedStart requestedEnd
        additionalCoveredRanges).map Fragment.span) line ↔
      (requestedStart ≤ line ∧ line ≤ requestedEnd) ∧
        owner.Shown fresh relative additionalCoveredRanges line := by
  have hspan : ∀ fragment : Fragment, fragment.span.Has line ↔
      fragment.startLine ≤ line ∧ line ≤ fragment.endLine := by
    intro fragment
    simp only [Span.Has, Fragment.span]
    omega
  unfold Shown
  constructor
  · rintro ⟨s, hs, hhas⟩
    obtain ⟨fragment, hmem, rfl⟩ := List.mem_map.mp hs
    rw [hspan] at hhas
    rcases mem_fragments.mp hmem with ⟨row, hshows, hrow⟩ | ⟨range, hrange, hfragment⟩
    · obtain ⟨lines, hlines, rfl⟩ := Option.map_eq_some_iff.mp hrow
      obtain ⟨hin, hbounds⟩ := clipLines_spec.mp ⟨lines, hlines, hhas⟩
      exact ⟨hin, Or.inl ⟨row, hshows, hbounds⟩⟩
    · obtain ⟨lines, hlines, rfl⟩ := Option.map_eq_some_iff.mp hfragment
      obtain ⟨hin, hbounds⟩ := clipLines_spec.mp ⟨lines, hlines, hhas⟩
      exact ⟨hin, Or.inr ⟨range, hrange, hbounds⟩⟩
  · rintro ⟨hin, ⟨row, hshows, hbounds⟩ | ⟨range, hrange, hbounds⟩⟩
    · obtain ⟨lines, hlines, hhas⟩ := clipLines_spec.mpr ⟨hin, hbounds⟩
      obtain ⟨fragment, hrow, hfrom, hto⟩ : ∃ fragment,
          rowFragment requestedStart requestedEnd row = some fragment ∧
            fragment.startLine = lines.1 ∧ fragment.endLine = lines.2 := by
        rw [rowFragment, hlines]
        exact ⟨_, rfl, rfl, rfl⟩
      refine ⟨fragment.span, List.mem_map_of_mem (mem_fragments.mpr (Or.inl ⟨row, hshows, hrow⟩)), ?_⟩
      rw [hspan, hfrom, hto]
      exact hhas
    · obtain ⟨lines, hlines, hhas⟩ := clipLines_spec.mpr ⟨hin, hbounds⟩
      obtain ⟨fragment, hfragment, hfrom, hto⟩ : ∃ fragment,
          rangeFragment requestedStart requestedEnd range = some fragment ∧
            fragment.startLine = lines.1 ∧ fragment.endLine = lines.2 := by
        rw [rangeFragment, hlines]
        exact ⟨_, rfl, rfl, rfl⟩
      refine ⟨fragment.span,
        List.mem_map_of_mem (mem_fragments.mpr (Or.inr ⟨range, hrange, hfragment⟩)), ?_⟩
      rw [hspan, hfrom, hto]
      exact hhas

theorem CoverageOwner.fragments_sorted :
    (owner.fragments fresh relative requestedStart requestedEnd additionalCoveredRanges).Pairwise
      fun left right => left.startLine ≤ right.startLine := by
  have hle : ∀ a b, fragmentLe a b = true ↔
      a.startLine < b.startLine ∨ (a.startLine = b.startLine ∧ a.endLine ≤ b.endLine) := by
    intro a b
    simp only [fragmentLe, Bool.or_eq_true, Bool.and_eq_true, decide_eq_true_eq]
  have hpair : ∀ fragments : List Fragment,
      (fragments.mergeSort fragmentLe).Pairwise fun s t => fragmentLe s t = true := by
    refine fun fragments => List.pairwise_mergeSort (fun a b c hab hbc => ?_) (fun a b => ?_) _
    · rw [hle] at hab hbc ⊢
      omega
    · rw [Bool.or_eq_true, hle, hle]
      omega
  refine (hpair _).imp fun {s t} hst => ?_
  rw [hle] at hst
  omega

/-! ## 4. Refs -/

/-- Each ref of the range is that of a fragment inside it. -/
def CoveredRange.Backed (fragments : List Fragment) (range : CoveredRange) : Prop :=
  ∀ ref ∈ range.evidenceRefs, ∃ fragment ∈ fragments, fragment.evidenceRef = some ref ∧
    range.startLine ≤ fragment.startLine ∧ fragment.endLine ≤ range.endLine

/-- A fragment that starts no earlier than the last range keeps the ranges backed. -/
theorem mergeFragment_backed {fragments : List Fragment} {coveredRanges : List CoveredRange}
    (hmem : fragment ∈ fragments)
    (hlast : ∀ range ∈ coveredRanges.head?, range.startLine ≤ fragment.startLine)
    (h : ∀ range ∈ coveredRanges, range.Backed fragments) :
    ∀ range ∈ mergeFragment coveredRanges fragment, range.Backed fragments := by
  have hnew : CoveredRange.Backed fragments
      ⟨fragment.startLine, fragment.endLine, fragment.evidenceRef.toList⟩ := by
    intro ref href
    exact ⟨fragment, hmem, Option.mem_toList.mp href, le_rfl, le_rfl⟩
  cases coveredRanges with
  | nil =>
    intro range hrange
    rw [List.mem_singleton.mp hrange]
    exact hnew
  | cons previous earlier =>
    have hstart : previous.startLine ≤ fragment.startLine := hlast previous rfl
    have hprevious := h previous List.mem_cons_self
    have hearlier : ∀ range ∈ earlier, range.Backed fragments :=
      fun range hrange => h range (List.mem_cons_of_mem _ hrange)
    have hkept : ∀ ref ∈ previous.evidenceRefs, ∃ f ∈ fragments, f.evidenceRef = some ref ∧
        previous.startLine ≤ f.startLine ∧ f.endLine ≤ max previous.endLine fragment.endLine := by
      intro ref href
      obtain ⟨f, hf, hsome, hfrom, hto⟩ := hprevious ref href
      exact ⟨f, hf, hsome, hfrom, hto.trans (le_max_left _ _)⟩
    unfold mergeFragment
    dsimp only
    split_ifs
    · intro range hrange
      rcases List.mem_cons.mp hrange with rfl | hrange
      · intro ref href
        dsimp only at href ⊢
        cases hown : fragment.evidenceRef with
        | none =>
          rw [hown] at href
          exact hkept ref href
        | some own =>
          rw [hown] at href
          dsimp only at href
          split_ifs at href
          · exact hkept ref href
          · rcases List.mem_append.mp href with href | href
            · exact hkept ref href
            · rw [List.mem_singleton] at href
              exact ⟨fragment, hmem, by rw [hown, href], hstart, le_max_right _ _⟩
      · exact hearlier range hrange
    · intro range hrange
      rcases List.mem_cons.mp hrange with rfl | hrange
      · exact hnew
      · exact h range hrange

theorem head?_mergeFragment {coveredRanges : List CoveredRange}
    (hlast : ∀ range ∈ coveredRanges.head?, range.startLine ≤ fragment.startLine) :
    ∀ range ∈ (mergeFragment coveredRanges fragment).head?,
      range.startLine ≤ fragment.startLine := by
  cases coveredRanges with
  | nil => simp [mergeFragment]
  | cons previous earlier =>
    unfold mergeFragment
    dsimp only
    split_ifs
    · simpa using hlast
    · simp

/-- **The refs of the covered ranges.** -/
theorem mergeFragments_backed {fragments : List Fragment}
    (hsorted : fragments.Pairwise fun left right => left.startLine ≤ right.startLine) :
    ∀ range ∈ mergeFragments fragments, range.Backed fragments := by
  have hfold : ∀ (rest : List Fragment) (coveredRanges : List CoveredRange),
      rest ⊆ fragments → rest.Pairwise (fun left right => left.startLine ≤ right.startLine) →
      (∀ range ∈ coveredRanges.head?, ∀ fragment ∈ rest,
        range.startLine ≤ fragment.startLine) →
      (∀ range ∈ coveredRanges, range.Backed fragments) →
      ∀ range ∈ rest.foldl mergeFragment coveredRanges, range.Backed fragments := by
    intro rest
    induction rest with
    | nil => exact fun _ _ _ _ h => h
    | cons fragment rest ih =>
      intro coveredRanges hsub hpair hlast h
      obtain ⟨hfirst, hrest⟩ := List.pairwise_cons.mp hpair
      have hle : ∀ range ∈ coveredRanges.head?, range.startLine ≤ fragment.startLine :=
        fun range hrange => hlast range hrange fragment List.mem_cons_self
      refine ih _ (fun f hf => hsub (List.mem_cons_of_mem _ hf)) hrest ?_
        (mergeFragment_backed (hsub List.mem_cons_self) hle h)
      exact fun range hrange f hf => (head?_mergeFragment hle range hrange).trans (hfirst f hf)
  intro range hrange
  exact hfold fragments [] (List.Subset.refl _) hsorted (by simp) (by simp) range
    (List.mem_reverse.mp hrange)

/-! ## 5. The covered ranges -/

section Covered

variable (owner fresh relative requestedStart requestedEnd additionalCoveredRanges)

/-- The covered ranges of a plan. -/
def CoverageOwner.coveredRanges : List CoveredRange :=
  mergeFragments (owner.fragments fresh relative requestedStart requestedEnd additionalCoveredRanges)

theorem CoverageOwner.fragment_spans :
    ((owner.fragments fresh relative requestedStart requestedEnd additionalCoveredRanges).map
        Fragment.span).Pairwise (fun s t => s.start ≤ t.start) ∧
      ∀ s ∈ (owner.fragments fresh relative requestedStart requestedEnd
        additionalCoveredRanges).map Fragment.span, s.start < s.stop := by
  refine ⟨List.pairwise_map.mpr fragments_sorted, fun s hs => ?_⟩
  obtain ⟨fragment, hmem, rfl⟩ := List.mem_map.mp hs
  exact Int.lt_add_one_iff.mpr (fragment_bounds hmem).2.1

/-- **The covered ranges are separated.** -/
theorem CoverageOwner.coveredRanges_separated :
    Separated ((owner.coveredRanges fresh relative requestedStart requestedEnd
      additionalCoveredRanges).map CoveredRange.span) := by
  obtain ⟨hsorted, hne⟩ := owner.fragment_spans fresh relative requestedStart requestedEnd
    additionalCoveredRanges
  rw [coveredRanges, mergeFragments_span]
  exact mergeSorted_separated hsorted hne

/-- **They hold the requested lines that were shown.** -/
theorem CoverageOwner.covers_coveredRanges (line : ℤ) :
    Covers ((owner.coveredRanges fresh relative requestedStart requestedEnd
        additionalCoveredRanges).map CoveredRange.span) line ↔
      (requestedStart ≤ line ∧ line ≤ requestedEnd) ∧
        owner.Shown fresh relative additionalCoveredRanges line := by
  obtain ⟨hsorted, hne⟩ := owner.fragment_spans fresh relative requestedStart requestedEnd
    additionalCoveredRanges
  rw [coveredRanges, mergeFragments_span, covers_mergeSorted hsorted hne, covers_fragments]

theorem CoverageOwner.coveredRanges_bounds :
    ∀ s ∈ (owner.coveredRanges fresh relative requestedStart requestedEnd
      additionalCoveredRanges).map CoveredRange.span,
        requestedStart ≤ s.start ∧ s.stop ≤ requestedEnd + 1 := by
  intro s hs
  have hne : s.start < s.stop := (owner.coveredRanges_separated fresh relative requestedStart
    requestedEnd additionalCoveredRanges).1 s hs
  have hfirst := (owner.covers_coveredRanges fresh relative requestedStart requestedEnd
    additionalCoveredRanges s.start).mp ⟨s, hs, le_rfl, hne⟩
  have hlast := (owner.covers_coveredRanges fresh relative requestedStart requestedEnd
    additionalCoveredRanges (s.stop - 1)).mp ⟨s, hs, by omega, by omega⟩
  omega

/-- **The refs of a covered range** are those of rows with lines of the range. -/
theorem CoverageOwner.coveredRanges_refs :
    ∀ range ∈ owner.coveredRanges fresh relative requestedStart requestedEnd
      additionalCoveredRanges, ∀ ref ∈ range.evidenceRefs,
      ∃ row, owner.Shows fresh relative row ∧
        evidenceRefSurface row.detail.evidenceRef = some ref ∧
        ∃ line, (range.startLine ≤ line ∧ line ≤ range.endLine) ∧
          InBounds row.detail.startLine row.detail.endLine line := by
  intro range hrange ref href
  obtain ⟨fragment, hmem, hsome, hfrom, hto⟩ :=
    mergeFragments_backed fragments_sorted range hrange ref href
  have hbounds := fragment_bounds hmem
  rcases mem_fragments.mp hmem with ⟨row, hshows, hrow⟩ | ⟨extra, -, hextra⟩
  · obtain ⟨lines, hlines, rfl⟩ := Option.map_eq_some_iff.mp hrow
    have hin := (clipLines_spec.mp ⟨lines, hlines, le_rfl, hbounds.2.1⟩).2
    dsimp only at hsome hfrom hto hbounds
    refine ⟨row, hshows, ?_, lines.1, ⟨hfrom, by omega⟩, hin⟩
    split_ifs at hsome
    exact hsome
  · obtain ⟨lines, -, rfl⟩ := Option.map_eq_some_iff.mp hextra
    cases hsome

end Covered

/-! ## 6. The plan -/

/-- The line lies in a covered range of the plan. -/
def IntervalPlan.CoversLine (plan : IntervalPlan) (line : ℤ) : Prop :=
  ∃ range ∈ plan.coveredRanges, range.startLine ≤ line ∧ line ≤ range.endLine

/-- The line lies in an uncovered range of the plan. -/
def IntervalPlan.LeavesLine (plan : IntervalPlan) (line : ℤ) : Prop :=
  ∃ range ∈ plan.uncoveredRanges, range.startLine ≤ line ∧ line ≤ range.endLine

theorem IntervalPlan.coversLine_iff {plan : IntervalPlan} :
    plan.CoversLine line ↔ Covers (plan.coveredRanges.map CoveredRange.span) line := by
  simp [CoversLine, Covers, Span.Has, CoveredRange.span]

theorem IntervalPlan.leavesLine_iff {plan : IntervalPlan} :
    plan.LeavesLine line ↔ Covers (plan.uncoveredRanges.map LineRange.span) line := by
  simp [LeavesLine, Covers, Span.Has, LineRange.span]

/-- What a computed plan consists of. -/
theorem resolvedIntervalPlan_ok {repoRelativePath : String} {startLine endLine : Option ℤ}
    {plan : IntervalPlan}
    (h : owner.resolvedIntervalPlan repoRelativePath startLine endLine additionalCoveredRanges =
      .ok plan) :
    startLine = some plan.requestedStartLine ∧ endLine = some plan.requestedEndLine ∧
      plan.repoRelativePath = normalizePath repoRelativePath ∧
      owner.freshSource plan.repoRelativePath = some plan.fresh ∧
      plan.requestedStartLine ≤ plan.requestedEndLine ∧
      plan.coveredRanges = owner.coveredRanges plan.fresh plan.repoRelativePath
        plan.requestedStartLine plan.requestedEndLine additionalCoveredRanges ∧
      plan.uncoveredRanges =
        uncoveredFrom plan.requestedEndLine plan.requestedStartLine plan.coveredRanges ∧
      plan.coveredLines = plan.coveredRanges.foldl
        (fun total range => total + range.endLine - range.startLine + 1) 0 ∧
      plan.covered = (decide (0 < plan.coveredLines) && plan.uncoveredRanges.isEmpty) := by
  unfold CoverageOwner.resolvedIntervalPlan at h
  dsimp only at h
  split at h
  · split_ifs at h with hinvalid
    split at h
    · cases h
    · rename_i fresh hfresh
      cases h
      rw [not_or, not_or] at hinvalid
      exact ⟨rfl, rfl, rfl, hfresh, not_lt.mp hinvalid.2.2, rfl, rfl, rfl, rfl⟩
  · cases h

/-- **The plan partitions the request.**  Its covered ranges are sorted, apart and not touching, its
uncovered ranges sorted and apart; a line is in a covered range exactly when it is requested and was
shown, and in an uncovered range exactly when it is requested and was not, so that the two kinds hold
each requested line; `coveredLines` counts the covered lines, `covered` says that none is left, and
each ref of a covered range is that of a row with lines of the range. -/
theorem interval_plan_partitions {repoRelativePath : String} {startLine endLine : Option ℤ}
    {plan : IntervalPlan}
    (h : owner.resolvedIntervalPlan repoRelativePath startLine endLine additionalCoveredRanges =
      .ok plan) :
    startLine = some plan.requestedStartLine ∧ endLine = some plan.requestedEndLine ∧
      plan.repoRelativePath = normalizePath repoRelativePath ∧
      owner.freshSource plan.repoRelativePath = some plan.fresh ∧
    ((∀ range ∈ plan.coveredRanges, range.startLine ≤ range.endLine) ∧
      plan.coveredRanges.Pairwise fun range next => range.endLine + 1 < next.startLine) ∧
    ((∀ range ∈ plan.uncoveredRanges, range.startLine ≤ range.endLine) ∧
      plan.uncoveredRanges.Pairwise fun range next => range.endLine < next.startLine) ∧
    (∀ line, plan.CoversLine line ↔
      (plan.requestedStartLine ≤ line ∧ line ≤ plan.requestedEndLine) ∧
        owner.Shown plan.fresh plan.repoRelativePath additionalCoveredRanges line) ∧
    (∀ line, plan.LeavesLine line ↔
      (plan.requestedStartLine ≤ line ∧ line ≤ plan.requestedEndLine) ∧
        ¬ plan.CoversLine line) ∧
    (∀ line, plan.CoversLine line ∨ plan.LeavesLine line ↔
      plan.requestedStartLine ≤ line ∧ line ≤ plan.requestedEndLine) ∧
    plan.coveredLines = {line | plan.CoversLine line}.ncard ∧
    (plan.covered = true ↔ ∀ line, ¬ plan.LeavesLine line) ∧
    ∀ range ∈ plan.coveredRanges, ∀ ref ∈ range.evidenceRefs,
      ∃ row, owner.Shows plan.fresh plan.repoRelativePath row ∧
        evidenceRefSurface row.detail.evidenceRef = some ref ∧
        ∃ line, (range.startLine ≤ line ∧ line ≤ range.endLine) ∧
          InBounds row.detail.startLine row.detail.endLine line := by
  obtain ⟨hstart, hend, hpath, hfresh, hle, hcovered, huncovered, hlines, hflag⟩ :=
    resolvedIntervalPlan_ok h
  have hsep := owner.coveredRanges_separated plan.fresh plan.repoRelativePath
    plan.requestedStartLine plan.requestedEndLine additionalCoveredRanges
  have hcovers := owner.covers_coveredRanges plan.fresh plan.repoRelativePath
    plan.requestedStartLine plan.requestedEndLine additionalCoveredRanges
  have hbounds := owner.coveredRanges_bounds plan.fresh plan.repoRelativePath
    plan.requestedStartLine plan.requestedEndLine additionalCoveredRanges
  have hrefs := owner.coveredRanges_refs plan.fresh plan.repoRelativePath
    plan.requestedStartLine plan.requestedEndLine additionalCoveredRanges
  rw [← hcovered] at hsep hcovers hbounds hrefs
  have hgaps : plan.uncoveredRanges.map LineRange.span = gaps (plan.requestedEndLine + 1)
      plan.requestedStartLine (plan.coveredRanges.map CoveredRange.span) := by
    rw [huncovered, uncoveredFrom_span]
  have hgapsep : Separated (plan.uncoveredRanges.map LineRange.span) := by
    rw [hgaps]
    exact gaps_separated hsep
  have hcoversLine : ∀ line, plan.CoversLine line ↔
      (plan.requestedStartLine ≤ line ∧ line ≤ plan.requestedEndLine) ∧
        owner.Shown plan.fresh plan.repoRelativePath additionalCoveredRanges line :=
    fun line => IntervalPlan.coversLine_iff.trans (hcovers line)
  have hleavesLine : ∀ line, plan.LeavesLine line ↔
      (plan.requestedStartLine ≤ line ∧ line ≤ plan.requestedEndLine) ∧ ¬ plan.CoversLine line := by
    intro line
    rw [IntervalPlan.leavesLine_iff, IntervalPlan.coversLine_iff, hgaps,
      covers_gaps hsep fun s hs => (hbounds s hs).2, Int.lt_add_one_iff, and_assoc]
  have hcount : plan.coveredLines = {line | plan.CoversLine line}.ncard := by
    have hset : {line | plan.CoversLine line} =
        ↑((Finset.Ico plan.requestedStartLine (plan.requestedEndLine + 1)).filter
          (Covers (plan.coveredRanges.map CoveredRange.span))) := by
      ext line
      simp only [Set.mem_ofPred_eq, Finset.coe_filter, Finset.mem_Ico, IntervalPlan.coversLine_iff,
        Int.lt_add_one_iff]
      exact (and_iff_right_of_imp fun hc => ((hcovers line).mp hc).1).symm
    rw [hset, Set.ncard_coe_finset, hsep.card_covered (fun s hs => (hbounds s hs).1)
      (fun s hs => (hbounds s hs).2), hlines, foldl_coveredLines, zero_add]
  refine ⟨hstart, hend, hpath, hfresh, ⟨fun range hrange => ?_, ?_⟩, ⟨fun range hrange => ?_, ?_⟩,
    hcoversLine, hleavesLine, fun line => ?_, hcount, ?_, hrefs⟩
  · exact Int.lt_add_one_iff.mp (hsep.1 _ (List.mem_map_of_mem hrange))
  · exact List.pairwise_map.mp hsep.2
  · exact Int.lt_add_one_iff.mp (hgapsep.1 _ (List.mem_map_of_mem hrange))
  · refine (List.pairwise_map.mp hgapsep.2).imp fun {range next} hlt => ?_
    exact (Int.lt_succ _).trans hlt
  · rw [hleavesLine, hcoversLine]
    tauto
  · -- an interval without uncovered ranges has its first line covered
    rw [hflag, Bool.and_eq_true, decide_eq_true_eq, List.isEmpty_iff]
    constructor
    · rintro ⟨-, hnil⟩ line ⟨range, hrange, -⟩
      rw [hnil] at hrange
      cases hrange
    · intro hnone
      have hnil : plan.uncoveredRanges = [] := by
        refine List.eq_nil_iff_forall_not_mem.mpr fun range hrange => hnone range.startLine ?_
        exact ⟨range, hrange, le_rfl, Int.lt_add_one_iff.mp (hgapsep.1 _ (List.mem_map_of_mem hrange))⟩
      have hfirst : plan.CoversLine plan.requestedStartLine := by
        by_contra hfree
        exact hnone _ ((hleavesLine _).mpr ⟨⟨le_rfl, hle⟩, hfree⟩)
      refine ⟨?_, hnil⟩
      have hfinite : {line | plan.CoversLine line}.Finite :=
        (Set.finite_Icc plan.requestedStartLine plan.requestedEndLine).subset
          fun line hline => ((hcoversLine line).mp hline).1
      have hpos : 0 < {line | plan.CoversLine line}.ncard :=
        (Set.ncard_pos hfinite).mpr ⟨_, hfirst⟩
      omega

/-- An owner whose call was shown the first two lines of a file of three. -/
def twoLinesOwner : CoverageOwner :=
  { cwd := "/repo", workItemId := some 1, jobId := some 2, attemptId := some 3
    agentCallId := some 4, repositoryIdentity := "/repo"
    observations :=
      [{ id := 1, workItemId := some 1, jobId := some 2, attemptId := some 3
         observationType := coverageObservation
         detail := { agentCallId := some 4, deliveryState := "delivered", suppressive := none
                     repositoryIdentity := "/repo"
                     sourceVersion :=
                       "880553fca8fcea94e325ee2cfb48e5a985cc797f39a14cc6d3cedecfeb2ae4d2"
                     repoRelPath := "src/a.js", startLine := some 1, endLine := some 2
                     evidenceRef := "#a1b2" } }]
    resolve := fun relative => "/repo/" ++ relative
    readFile := fun _ => some "a\nb\nc\n"
    sha256 := fun _ => "880553fca8fcea94e325ee2cfb48e5a985cc797f39a14cc6d3cedecfeb2ae4d2" }

/-- The plan for the whole file: it leaves the third line. -/
theorem interval_plan_partitions_two :
    ∃ plan, twoLinesOwner.resolvedIntervalPlan "src/a.js" (some 1) (some 3) [] = .ok plan ∧
      (plan.LeavesLine 3 ↔ ¬ plan.CoversLine 3) := by
  obtain ⟨plan, hplan⟩ : ∃ plan,
      twoLinesOwner.resolvedIntervalPlan "src/a.js" (some 1) (some 3) [] = .ok plan := ⟨_, rfl⟩
  have h := interval_plan_partitions hplan
  obtain ⟨hstart, hend, -, -, -, -, -, hleaves, -⟩ := h
  have hfirst := Option.some.inj hstart
  have hlast := Option.some.inj hend
  exact ⟨plan, hplan, (hleaves 3).trans (and_iff_right ⟨by omega, by omega⟩)⟩

end PosseClient
