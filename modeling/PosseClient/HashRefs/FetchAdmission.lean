/-
# What an enforced fetch delivers

An offset fetch of a materialized ref that was not fully visible, under enforcement: which positions
of the payload were delivered or shown before, what the two scans over the merged ranges find, and
what the admission lets through.

* `covers_fetchCoverage`: the merged ranges are the positions delivered or partially visible.
* `scanCovered_spec`, `nextCovered_spec`: the first undelivered position, and where its gap ends.
* `deliverFetch_progress`: an admitted fetch delivers a position for the first time.
* `fetch_admission_exact`: the admission, and every sequence of fetches.
-/
import PosseClient.HashRefs.FetchPolicy

namespace PosseClient

open Spans

/-! ## 1. What was delivered -/

/-- The position was delivered by a recorded fetch, or is partially visible. -/
def WasDelivered (entry : FetchEntry) (context : FetchContext) (history : List FetchObservation)
    (x : ℤ) : Prop :=
  (∃ item ∈ history, item.rejected = false ∧
      item.deliveredRangeStart.getD 0 ≤ x ∧ x < item.deliveredRangeEnd.getD 0) ∨
    ((visibleScope entry context).visibility = .someVisible ∧
      ∃ range ∈ (visibleScope entry context).ranges,
        range.start.getD 0 ≤ x ∧ x < range.stop.getD 0)

/-- The position the request asks to start at. -/
def AdmissionArgs.requestedOffset (args : AdmissionArgs) : ℤ := policyPositiveInt args.offset 0 none

/-- The fetch asks for an offset, not for a search. -/
def AdmissionArgs.ByOffset (args : AdmissionArgs) : Prop := trim args.search = ""

theorem AdmissionArgs.requestedOffset_nonneg (args : AdmissionArgs) : 0 ≤ args.requestedOffset := by
  unfold requestedOffset policyPositiveInt
  cases hoffset : args.offset with
  | none => simp
  | some offset =>
    by_cases hneg : 0 ≤ offset
    · simp [Option.filter, hneg]
    · simp [Option.filter, hneg]

/-- A request asks for no characters only where it says so. -/
theorem AdmissionArgs.requestedLimit_pos (args : AdmissionArgs) :
    0 ≤ args.requestedLimit ∧ (0 < args.requestedLimit ↔ args.limit ≠ some 0) := by
  unfold requestedLimit policyPositiveInt fetchRefDefaultLimitChars fetchRefMaxLimitChars
  cases hlimit : args.limit with
  | none => simp
  | some limit =>
    by_cases hneg : 0 ≤ limit
    · simp only [Option.filter, hneg, decide_true, ↓reduceIte, Option.getD_some, ne_eq,
        Option.some.injEq]
      omega
    · simp only [Option.filter, hneg, decide_false, Bool.false_eq_true, ↓reduceIte,
        Option.getD_none, ne_eq, Option.some.injEq]
      omega

/-! ## 2. The merged ranges -/

theorem normalizeRange_has {fullSize : ℤ} {range : RawRange} {x : ℤ} :
    (∃ s, normalizeRange fullSize range = some s ∧ s.Has x) ↔
      0 ≤ x ∧ x < fullSize ∧ range.start.getD 0 ≤ x ∧ x < range.stop.getD 0 := by
  unfold normalizeRange Span.Has
  dsimp only
  split
  · simp only [Option.some.injEq, exists_eq_left']
    omega
  · simp only [reduceCtorEq, false_and, exists_false, false_iff]
    omega

theorem normalizeRange_ne {fullSize : ℤ} {range : RawRange} {s : Span ℤ}
    (h : normalizeRange fullSize range = some s) : s.start < s.stop := by
  unfold normalizeRange at h
  dsimp only at h
  split_ifs at h with hlt
  cases h
  exact hlt

/-- The sorted ranges are sorted by where they start. -/
theorem mergeSort_rangeLe_pairwise (ranges : List (Span ℤ)) :
    (ranges.mergeSort rangeLe).Pairwise fun s t => s.start ≤ t.start := by
  have hle : ∀ a b, rangeLe a b = true ↔
      a.start < b.start ∨ (a.start = b.start ∧ a.stop ≤ b.stop) := by
    intro a b
    simp only [rangeLe, Bool.or_eq_true, Bool.and_eq_true, decide_eq_true_eq]
  have hpair : (ranges.mergeSort rangeLe).Pairwise fun s t => rangeLe s t = true := by
    refine List.pairwise_mergeSort (fun a b c hab hbc => ?_) (fun a b => ?_) ranges
    · rw [hle] at hab hbc ⊢
      omega
    · rw [Bool.or_eq_true, hle, hle]
      omega
  refine hpair.imp fun {s t} hst => ?_
  rw [hle] at hst
  omega

theorem mergeRanges_separated (ranges : List RawRange) (fullSize : ℤ) :
    Separated (mergeRanges ranges fullSize) := by
  refine mergeSorted_separated (mergeSort_rangeLe_pairwise _) fun s hs => ?_
  obtain ⟨range, -, hrange⟩ := List.mem_filterMap.mp (List.mem_mergeSort.mp hs)
  exact normalizeRange_ne hrange

theorem covers_mergeRanges {ranges : List RawRange} {fullSize x : ℤ} :
    Covers (mergeRanges ranges fullSize) x ↔
      0 ≤ x ∧ x < fullSize ∧ ∃ range ∈ ranges, range.start.getD 0 ≤ x ∧ x < range.stop.getD 0 := by
  have hne : ∀ s ∈ (ranges.filterMap (normalizeRange fullSize)).mergeSort rangeLe,
      s.start < s.stop := by
    intro s hs
    obtain ⟨range, -, hrange⟩ := List.mem_filterMap.mp (List.mem_mergeSort.mp hs)
    exact normalizeRange_ne hrange
  rw [mergeRanges, covers_mergeSorted (mergeSort_rangeLe_pairwise _) hne,
    Covers.of_perm (List.mergeSort_perm _ _)]
  constructor
  · rintro ⟨s, hs, hhas⟩
    obtain ⟨range, hmem, hrange⟩ := List.mem_filterMap.mp hs
    obtain ⟨hx, hlt, hin⟩ := normalizeRange_has.mp ⟨s, hrange, hhas⟩
    exact ⟨hx, hlt, range, hmem, hin⟩
  · rintro ⟨hx, hlt, range, hmem, hin⟩
    obtain ⟨s, hrange, hhas⟩ := normalizeRange_has.mpr ⟨hx, hlt, hin⟩
    exact ⟨s, List.mem_filterMap.mpr ⟨range, hmem, hrange⟩, hhas⟩

variable {entry : FetchEntry} {context : FetchContext} {history : List FetchObservation}
  {args : AdmissionArgs} {x : ℤ}

/-- **The ranges a fetch leaves out** are the positions of the payload that were delivered. -/
theorem covers_fetchCoverage :
    Covers (fetchCoverage entry history context) x ↔
      0 ≤ x ∧ x < entry.fullSize ∧ WasDelivered entry context history x := by
  unfold fetchCoverage WasDelivered
  rw [covers_mergeRanges]
  refine and_congr_right fun _ => and_congr_right fun _ => ?_
  constructor
  · rintro ⟨range, hmem, hin⟩
    rcases List.mem_append.mp hmem with hscope | hitem
    · split_ifs at hscope with hvisible
      · exact Or.inr ⟨hvisible, range, hscope, hin⟩
      · cases hscope
    · obtain ⟨item, hfiltered, rfl⟩ := List.mem_map.mp hitem
      obtain ⟨hmem, hkept⟩ := List.mem_filter.mp hfiltered
      exact Or.inl ⟨item, hmem, by simpa using hkept, hin⟩
  · rintro (⟨item, hmem, hkept, hin⟩ | ⟨hvisible, range, hmem, hin⟩)
    · refine ⟨_, List.mem_append_right _ (List.mem_map_of_mem (List.mem_filter.mpr ⟨hmem, ?_⟩)), hin⟩
      simp [hkept]
    · refine ⟨range, List.mem_append_left _ ?_, hin⟩
      rwa [if_pos hvisible]

theorem fetchCoverage_separated : Separated (fetchCoverage entry history context) :=
  mergeRanges_separated _ _

/-! ## 3. The scans -/

variable {coverage : List (Span ℤ)} {start next : ℤ}

theorem scanCovered_inside {range : Span ℤ} (hin : range.Has start) :
    scanCovered (range :: coverage) start next = scanCovered coverage range.stop next := by
  have hhas : range.start ≤ start ∧ start < range.stop := hin
  have hle : ¬ range.stop < range.start := not_lt.mpr (hin.1.trans hin.2.le)
  simp only [scanCovered]
  rw [if_pos hhas, if_neg hle]

theorem scanCovered_before {range : Span ℤ} (hgap : start < range.start) :
    scanCovered (range :: coverage) start next = (start, range.start) := by
  have hout : ¬ (range.start ≤ start ∧ start < range.stop) := fun h => absurd h.1 (not_le.mpr hgap)
  simp only [scanCovered]
  rw [if_neg hout, if_pos hgap]

theorem scanCovered_past {range : Span ℤ} (hout : ¬ range.Has start) (hgap : ¬ start < range.start) :
    scanCovered (range :: coverage) start next = scanCovered coverage start next := by
  have hhas : ¬ (range.start ≤ start ∧ start < range.stop) := hout
  simp only [scanCovered]
  rw [if_neg hhas, if_neg hgap]

/-- **The first scan** stops at the first position that is not covered. -/
theorem scanCovered_spec (h : Separated coverage) (start next : ℤ) :
    start ≤ (scanCovered coverage start next).1 ∧
      (∀ x, start ≤ x → x < (scanCovered coverage start next).1 → Covers coverage x) ∧
      ¬ Covers coverage (scanCovered coverage start next).1 := by
  induction coverage generalizing start with
  | nil => exact ⟨le_rfl, fun x hx hlt => absurd hlt (not_lt.mpr hx), not_covers_nil⟩
  | cons range coverage ih =>
    by_cases hin : range.Has start
    · obtain ⟨hle, hbefore, hfree⟩ := ih h.tail range.stop
      have hlt : start < range.stop := hin.2
      rw [scanCovered_inside hin]
      refine ⟨hlt.le.trans hle, fun x hx hlt => ?_, ?_⟩
      · rcases lt_or_ge x range.stop with hstop | hstop
        · exact covers_cons.mpr (Or.inl ⟨hin.1.trans hx, hstop⟩)
        · exact covers_cons.mpr (Or.inr (hbefore x hstop hlt))
      · rw [covers_cons]
        rintro (⟨-, hstop⟩ | hcovers)
        · omega
        · exact hfree hcovers
    · by_cases hgap : start < range.start
      · rw [scanCovered_before hgap]
        exact ⟨le_rfl, fun x hx hlt => absurd hlt (not_lt.mpr hx), h.not_covers_of_lt hgap⟩
      · obtain ⟨hle, hbefore, hfree⟩ := ih h.tail start
        have hpast : range.stop ≤ start := not_lt.mp fun hlt => hin ⟨not_lt.mp hgap, hlt⟩
        rw [scanCovered_past hin hgap]
        refine ⟨hle, fun x hx hlt => covers_cons.mpr (Or.inr (hbefore x hx hlt)), ?_⟩
        rw [covers_cons]
        rintro (⟨-, hlt⟩ | hcovers)
        · omega
        · exact hfree hcovers

/-- What the first scan says of the next covered range. -/
theorem scanCovered_next (h : Separated coverage) (start next : ℤ) :
    (scanCovered coverage start next).2 = next ∨
      ((scanCovered coverage start next).1 < (scanCovered coverage start next).2 ∧
        Covers coverage (scanCovered coverage start next).2) := by
  induction coverage generalizing start with
  | nil => exact Or.inl rfl
  | cons range coverage ih =>
    have hpos : range.start < range.stop := h.1 range List.mem_cons_self
    have hlater : ∀ start, (scanCovered coverage start next).2 = next ∨
        ((scanCovered coverage start next).1 < (scanCovered coverage start next).2 ∧
          Covers (range :: coverage) (scanCovered coverage start next).2) := by
      intro start
      rcases ih h.tail start with hnext | ⟨hlt, hcovers⟩
      · exact Or.inl hnext
      · exact Or.inr ⟨hlt, covers_cons.mpr (Or.inr hcovers)⟩
    by_cases hin : range.Has start
    · rw [scanCovered_inside hin]
      exact hlater _
    · by_cases hgap : start < range.start
      · rw [scanCovered_before hgap]
        exact Or.inr ⟨hgap, covers_cons.mpr (Or.inl ⟨le_rfl, hpos⟩)⟩
      · rw [scanCovered_past hin hgap]
        exact hlater _

/-- **The second scan**: nothing is covered before the range it finds. -/
theorem nextCovered_spec (h : Separated coverage) (hfree : ¬ Covers coverage start) (next : ℤ) :
    nextCovered coverage start next ≤ next ∧
      (∀ x, start ≤ x → x < nextCovered coverage start next → ¬ Covers coverage x) ∧
      (nextCovered coverage start next = next ∨
        (start < nextCovered coverage start next ∧
          Covers coverage (nextCovered coverage start next))) := by
  induction coverage with
  | nil => exact ⟨le_rfl, fun x _ _ => not_covers_nil, Or.inl rfl⟩
  | cons range coverage ih =>
    have hpos : range.start < range.stop := h.1 range List.mem_cons_self
    have hout : ¬ range.Has start := fun hhas => hfree (covers_cons.mpr (Or.inl hhas))
    have hrest : ¬ Covers coverage start := fun hc => hfree (covers_cons.mpr (Or.inr hc))
    by_cases hgap : start < range.start
    · have hstep : nextCovered (range :: coverage) start next = min next range.start := by
        simp only [nextCovered, if_pos hgap]
      rw [hstep]
      refine ⟨min_le_left _ _, fun x _ hlt => ?_, ?_⟩
      · exact h.not_covers_of_lt (lt_of_lt_of_le hlt (min_le_right _ _))
      · rcases le_total next range.start with hle | hle
        · exact Or.inl (min_eq_left hle)
        · rw [min_eq_right hle]
          exact Or.inr ⟨hgap, covers_cons.mpr (Or.inl ⟨le_rfl, hpos⟩)⟩
    · have hstep : nextCovered (range :: coverage) start next = nextCovered coverage start next := by
        simp only [nextCovered, if_neg hgap]
      obtain ⟨hle, hgapfree, hend⟩ := ih h.tail hrest
      have hpast : range.stop ≤ start := by
        by_contra hlt
        exact hout ⟨by omega, by omega⟩
      rw [hstep]
      refine ⟨hle, fun x hx hlt hcovers => ?_, ?_⟩
      · rcases covers_cons.mp hcovers with ⟨-, hstop⟩ | hcovers
        · omega
        · exact hgapfree x hx hlt hcovers
      · rcases hend with hend | ⟨hlt, hcovers⟩
        · exact Or.inl hend
        · exact Or.inr ⟨hlt, covers_cons.mpr (Or.inr hcovers)⟩

/-! ## 4. One fetch -/

/-- The admission delivers undelivered text and all of it: it refuses where nothing is left from the
requested offset on, and else lets through the longest undelivered range within the limit that
starts at the first undelivered position. -/
def AdmissionExact (entry : FetchEntry) (context : FetchContext) (history : List FetchObservation)
    (args : AdmissionArgs) (admission : Except FetchRejection FetchAllowance) : Prop :=
  ((∃ rejection, admission = .error rejection) ↔
      ∀ x, args.requestedOffset ≤ x → x < entry.fullSize →
        WasDelivered entry context history x) ∧
    ∀ allowance, admission = .ok allowance →
      ∃ offset limit, allowance.args.offset = some offset ∧ allowance.args.limit = some limit ∧
        0 < limit ∧ limit ≤ args.requestedLimit ∧
        args.requestedOffset ≤ offset ∧ offset + limit ≤ entry.fullSize ∧
        (∀ x, args.requestedOffset ≤ x → x < offset → WasDelivered entry context history x) ∧
        (∀ x, offset ≤ x → x < offset + limit → ¬ WasDelivered entry context history x) ∧
        ∀ limit' ≤ args.requestedLimit, offset + limit' ≤ entry.fullSize →
          (∀ x, offset ≤ x → x < offset + limit' → ¬ WasDelivered entry context history x) →
            limit' ≤ limit

theorem FetchEntry.fullSize_nonneg (entry : FetchEntry) : 0 ≤ entry.fullSize := le_max_left _ _

/-- The first position the fetch finds undelivered. -/
def fetchStart (entry : FetchEntry) (context : FetchContext) (history : List FetchObservation)
    (args : AdmissionArgs) : ℤ :=
  (scanCovered (fetchCoverage entry history context) (min args.requestedOffset entry.fullSize)
    entry.fullSize).1

/-- Where the undelivered range ends that starts there. -/
def fetchGapEnd (entry : FetchEntry) (context : FetchContext) (history : List FetchObservation)
    (args : AdmissionArgs) : ℤ :=
  nextCovered (fetchCoverage entry history context) (fetchStart entry context history args)
    (scanCovered (fetchCoverage entry history context) (min args.requestedOffset entry.fullSize)
      entry.fullSize).2

/-- Where the admitted range ends. -/
def fetchStop (entry : FetchEntry) (context : FetchContext) (history : List FetchObservation)
    (args : AdmissionArgs) : ℤ :=
  min entry.fullSize (min (fetchStart entry context history args + args.requestedLimit)
    (fetchGapEnd entry context history args))

theorem admitRange_error (h : entry.fullSize ≤ fetchStart entry context history args ∨
    fetchStop entry context history args ≤ fetchStart entry context history args) :
    ∃ rejection, admitRange entry args history context true = .error rejection := by
  refine ⟨duplicateVisible (fetchClassForEntry entry) (visibleScope entry context).visibility, ?_⟩
  unfold fetchStop fetchGapEnd fetchStart AdmissionArgs.requestedOffset at h
  unfold admitRange
  simp only [Bool.true_and, decide_eq_true_eq]
  rcases h with h | h
  · rw [if_pos h]
  · rw [if_pos h, ite_self]

theorem admitRange_ok (hstart : fetchStart entry context history args < entry.fullSize)
    (hstop : fetchStart entry context history args < fetchStop entry context history args) :
    ∃ allowance, admitRange entry args history context true = .ok allowance ∧
      allowance.args.offset = some (fetchStart entry context history args) ∧
      allowance.args.limit =
        some (fetchStop entry context history args - fetchStart entry context history args) := by
  have hmax : max 1 (fetchStop entry context history args - fetchStart entry context history args) =
      fetchStop entry context history args - fetchStart entry context history args := by omega
  have hlt := not_le.mpr hstart
  have hle := not_le.mpr hstop
  rw [← hmax]
  unfold fetchStop fetchGapEnd fetchStart AdmissionArgs.requestedOffset at *
  unfold admitRange
  simp only [Bool.true_and, decide_eq_true_eq]
  rw [if_neg hlt, if_neg hle]
  exact ⟨_, rfl, rfl, rfl⟩

/-- The fetch starts at the first undelivered position from the requested one on. -/
theorem fetchStart_spec :
    min args.requestedOffset entry.fullSize ≤ fetchStart entry context history args ∧
      (∀ x, args.requestedOffset ≤ x → x < fetchStart entry context history args →
        x < entry.fullSize → WasDelivered entry context history x) ∧
      (fetchStart entry context history args < entry.fullSize →
        ¬ WasDelivered entry context history (fetchStart entry context history args)) := by
  obtain ⟨hle, hbefore, hfree⟩ := scanCovered_spec (@fetchCoverage_separated entry context history)
    (min args.requestedOffset entry.fullSize) entry.fullSize
  have hoffset := args.requestedOffset_nonneg
  have hsize := entry.fullSize_nonneg
  refine ⟨hle, fun x hx hlt hfull => ?_, fun hlt hdone => hfree (covers_fetchCoverage.mpr ?_)⟩
  · exact (covers_fetchCoverage.mp (hbefore x (by omega) hlt)).2.2
  · exact ⟨by omega, hlt, hdone⟩

/-- The gap it starts in ends at a delivered position or with the payload. -/
theorem fetchGapEnd_spec (hlt : fetchStart entry context history args < entry.fullSize) :
    fetchStart entry context history args < fetchGapEnd entry context history args ∧
      fetchGapEnd entry context history args ≤ entry.fullSize ∧
      (∀ x, fetchStart entry context history args ≤ x →
        x < fetchGapEnd entry context history args → ¬ WasDelivered entry context history x) ∧
      (fetchGapEnd entry context history args = entry.fullSize ∨
        WasDelivered entry context history (fetchGapEnd entry context history args)) := by
  have hsep := @fetchCoverage_separated entry context history
  have hoffset := args.requestedOffset_nonneg
  have hsize := entry.fullSize_nonneg
  obtain ⟨hle, -, hfree⟩ := scanCovered_spec hsep (min args.requestedOffset entry.fullSize)
    entry.fullSize
  have hnext := scanCovered_next hsep (min args.requestedOffset entry.fullSize) entry.fullSize
  obtain ⟨hbound, hgap, hend⟩ := nextCovered_spec hsep hfree
    (scanCovered (fetchCoverage entry history context) (min args.requestedOffset entry.fullSize)
      entry.fullSize).2
  change min args.requestedOffset entry.fullSize ≤ fetchStart entry context history args at hle
  have hcovered : ∀ {y}, Covers (fetchCoverage entry history context) y →
      y < entry.fullSize ∧ WasDelivered entry context history y :=
    fun hy => (covers_fetchCoverage.mp hy).2
  have hfrom : (scanCovered (fetchCoverage entry history context)
        (min args.requestedOffset entry.fullSize) entry.fullSize).2 = entry.fullSize ∨
      fetchStart entry context history args < (scanCovered (fetchCoverage entry history context)
        (min args.requestedOffset entry.fullSize) entry.fullSize).2 ∧
      Covers (fetchCoverage entry history context) (scanCovered (fetchCoverage entry history context)
        (min args.requestedOffset entry.fullSize) entry.fullSize).2 := hnext
  have hto : fetchGapEnd entry context history args = (scanCovered
        (fetchCoverage entry history context) (min args.requestedOffset entry.fullSize)
        entry.fullSize).2 ∨
      fetchStart entry context history args < fetchGapEnd entry context history args ∧
      Covers (fetchCoverage entry history context) (fetchGapEnd entry context history args) := hend
  -- the gap ends with the payload or at a covered position, past where it starts
  have hwhere : fetchGapEnd entry context history args = entry.fullSize ∨
      (fetchStart entry context history args < fetchGapEnd entry context history args ∧
        Covers (fetchCoverage entry history context) (fetchGapEnd entry context history args)) := by
    rcases hto with heq | hto
    · rw [heq]
      exact hfrom
    · exact Or.inr hto
  have hfull : fetchGapEnd entry context history args ≤ entry.fullSize := by
    rcases hwhere with heq | ⟨-, hcov⟩
    · exact heq.le
    · exact (hcovered hcov).1.le
  refine ⟨?_, hfull, fun x hx hxlt hdone => ?_, ?_⟩
  · rcases hwhere with heq | ⟨hpast, -⟩
    · rw [heq]
      exact hlt
    · exact hpast
  · exact hgap x hx hxlt (covers_fetchCoverage.mpr ⟨by omega, by omega, hdone⟩)
  · exact hwhere.imp_right fun h => (hcovered h.2).2

/-- The size of the admitted range is the limit, or what is left of the gap. -/
theorem fetchStop_spec (hlt : fetchStart entry context history args < entry.fullSize)
    (hlimit : args.limit ≠ some 0) :
    fetchStart entry context history args < fetchStop entry context history args ∧
      fetchStop entry context history args ≤ entry.fullSize := by
  have hpos : 0 < args.requestedLimit := args.requestedLimit_pos.2.mpr hlimit
  obtain ⟨hgap, hfull, -, -⟩ := fetchGapEnd_spec hlt
  unfold fetchStop
  omega

/-- **An enforced fetch** of an undelivered position, with a limit that is not zero. -/
theorem admitRange_exact (hlimit : args.limit ≠ some 0) :
    AdmissionExact entry context history args (admitRange entry args history context true) := by
  obtain ⟨hle, hbefore, hfree⟩ := @fetchStart_spec entry context history args
  rcases lt_or_ge (fetchStart entry context history args) entry.fullSize with hlt | hge
  · obtain ⟨hstop, hfull⟩ := fetchStop_spec hlt hlimit
    obtain ⟨hgap, hgapfull, hundelivered, hend⟩ := fetchGapEnd_spec hlt
    obtain ⟨allowance, hok, hoffset, hlim⟩ := admitRange_ok hlt hstop
    have hreq : args.requestedOffset ≤ fetchStart entry context history args := by omega
    refine ⟨⟨?_, fun hall => ?_⟩, ?_⟩
    · rintro ⟨rejection, hrejected⟩
      rw [hok] at hrejected
      cases hrejected
    · exact absurd (hall _ hreq hlt) (hfree hlt)
    · intro allowance' hok'
      rw [hok] at hok'
      cases hok'
      refine ⟨_, _, hoffset, hlim, by omega, ?_, hreq, by omega, ?_, ?_, ?_⟩
      · unfold fetchStop
        omega
      · exact fun x hx hxlt => hbefore x hx hxlt (by omega)
      · intro x hx hxlt
        refine hundelivered x hx ?_
        unfold fetchStop at hxlt
        omega
      · -- a longer range would pass the limit, the payload or the end of the gap
        intro limit' hlimit' hfull' hnone
        by_contra hlonger
        have hend' : fetchGapEnd entry context history args <
            fetchStart entry context history args + limit' := by
          unfold fetchStop at hlonger
          omega
        rcases hend with heq | hdone
        · omega
        · exact hnone _ hgap.le hend' hdone
  · obtain ⟨rejection, hrejected⟩ := @admitRange_error entry context history args (Or.inl hge)
    refine ⟨⟨fun _ x hx hxlt => hbefore x hx (by omega) hxlt, fun _ => ⟨rejection, hrejected⟩⟩, ?_⟩
    intro allowance hok
    rw [hrejected] at hok
    cases hok

/-- With a limit of zero the fetch is refused. -/
theorem admitRange_zero (hlimit : args.limit = some 0) :
    ∃ rejection, admitRange entry args history context true = .error rejection := by
  have hzero : args.requestedLimit = 0 := by
    have hbounds := args.requestedLimit_pos
    have hnot : ¬ 0 < args.requestedLimit := fun hpos => hbounds.2.mp hpos hlimit
    omega
  refine admitRange_error (Or.inr ?_)
  unfold fetchStop
  omega

/-- **When the admission is exact**: whenever it may deliver something, or nothing is left. -/
theorem admitRange_exact_iff :
    AdmissionExact entry context history args (admitRange entry args history context true) ↔
      args.limit ≠ some 0 ∨
        ∀ x, args.requestedOffset ≤ x → x < entry.fullSize →
          WasDelivered entry context history x := by
  constructor
  · intro h
    by_cases hlimit : args.limit = some 0
    · exact Or.inr (h.1.mp (admitRange_zero hlimit))
    · exact Or.inl hlimit
  · rintro (hlimit | hall)
    · exact admitRange_exact hlimit
    · by_cases hlimit : args.limit = some 0
      · obtain ⟨rejection, hrejected⟩ := @admitRange_zero entry context history args hlimit
        refine ⟨⟨fun _ => hall, fun _ => ⟨rejection, hrejected⟩⟩, fun allowance hok => ?_⟩
        rw [hrejected] at hok
        cases hok
      · exact admitRange_exact hlimit

/-- The ref is one whose ranges the policy counts. -/
structure Fetchable (entry : FetchEntry) (context : FetchContext) (requireTraversal : Bool) :
    Prop where
  materialized : entry.materialized = true
  notFull : (visibleScope entry context).visibility ≠ .full
  issued : requireTraversal = true → (visibleScope entry context).issuedAs = some .traversal

/-- An enforced offset fetch of such a ref is decided by its ranges. -/
theorem admitHashRefFetch_eq {requireTraversal : Bool}
    (hfetch : Fetchable entry context requireTraversal) (hoffset : args.ByOffset)
    (toLowerCase : String → String) (history : List FetchObservation) :
    admitHashRefFetch toLowerCase (some entry) args history context true requireTraversal =
      admitRange entry args history context true := by
  have htraversal : ¬ (requireTraversal = true ∧
      (visibleScope entry context).issuedAs ≠ some .traversal) := fun h => h.2 (hfetch.issued h.1)
  have hfull : ¬ ((visibleScope entry context).visibility = .full ∧
      fetchClassForEntry entry ≠ "result_continuation") := fun h => hfetch.notFull h.1
  have hsearch : normalizeSearchSignature toLowerCase args = none := by
    unfold AdmissionArgs.ByOffset at hoffset
    simp [normalizeSearchSignature, hoffset]
  simp only [admitHashRefFetch, true_and]
  rw [if_neg htraversal, if_neg hfull, hsearch]
  simp [hfetch.materialized]

/-! ## 5. Sequences of fetches -/

/-- One fetch of a sequence: what it asks for, and how many characters of the admitted range its
rendered page carries. -/
structure FetchStep where
  args : AdmissionArgs
  returnedChars : ℤ

/-- The page of an admitted fetch: it starts where the range starts, and keeps at least one
character of it. -/
def deliveredPage (allowance : FetchAllowance) (returnedChars : ℤ) : Span ℤ :=
  let offset := allowance.args.offset.getD 0
  ⟨offset, offset + max 1 (min returnedChars (allowance.args.limit.getD 0))⟩

/-- The observation that `recordFetchObservation` makes of an offset fetch. -/
def recordFetch (admission : Except FetchRejection FetchAllowance) (returnedChars : ℤ) :
    FetchObservation :=
  match admission with
  | .error rejection =>
    { rejected := true, classification := rejection.classification, empty := false
      searchError := false, searchSignature := none
      deliveredRangeStart := none, deliveredRangeEnd := none }
  | .ok allowance =>
    { rejected := false, classification := allowance.classification, empty := false
      searchError := false, searchSignature := none
      deliveredRangeStart := some (deliveredPage allowance returnedChars).start
      deliveredRangeEnd := some (deliveredPage allowance returnedChars).stop }

section Sequences

variable (toLowerCase : String → String) (entry : FetchEntry) (context : FetchContext)
  (requireTraversal : Bool)

/-- The enforced admission of a step. -/
def admitStep (history : List FetchObservation) (step : FetchStep) :
    Except FetchRejection FetchAllowance :=
  admitHashRefFetch toLowerCase (some entry) step.args history context true requireTraversal

/-- The history after a step. -/
def deliverFetch (history : List FetchObservation) (step : FetchStep) : List FetchObservation :=
  history ++ [recordFetch (admitStep toLowerCase entry context requireTraversal history step)
    step.returnedChars]

/-- The history after a sequence of fetches. -/
def deliverFetches (history : List FetchObservation) (steps : List FetchStep) :
    List FetchObservation :=
  steps.foldl (deliverFetch toLowerCase entry context requireTraversal) history

/-- The pages a sequence of fetches delivers. -/
def deliveredPages (history : List FetchObservation) : List FetchStep → List (Span ℤ)
  | [] => []
  | step :: steps =>
    let rest := deliveredPages
      (deliverFetch toLowerCase entry context requireTraversal history step) steps
    match admitStep toLowerCase entry context requireTraversal history step with
    | .error _ => rest
    | .ok allowance => deliveredPage allowance step.returnedChars :: rest

/-- Each fetch asks for an offset with nothing undelivered between `offset` and it. -/
def FetchesFrom (offset : ℤ) (history : List FetchObservation) : List FetchStep → Prop
  | [] => True
  | step :: steps =>
    (offset ≤ step.args.requestedOffset ∧
      ∀ x, offset ≤ x → x < step.args.requestedOffset → WasDelivered entry context history x) ∧
    FetchesFrom offset (deliverFetch toLowerCase entry context requireTraversal history step) steps

end Sequences

variable {toLowerCase : String → String} {requireTraversal : Bool} {step : FetchStep}
  {steps : List FetchStep} {offset : ℤ}

theorem wasDelivered_append {observation : FetchObservation} :
    WasDelivered entry context (history ++ [observation]) x ↔
      WasDelivered entry context history x ∨
        (observation.rejected = false ∧ observation.deliveredRangeStart.getD 0 ≤ x ∧
          x < observation.deliveredRangeEnd.getD 0) := by
  unfold WasDelivered
  constructor
  · rintro (⟨item, hmem, hin⟩ | hscope)
    · rcases List.mem_append.mp hmem with hmem | hmem
      · exact Or.inl (Or.inl ⟨item, hmem, hin⟩)
      · rw [List.mem_singleton] at hmem
        exact Or.inr (hmem ▸ hin)
    · exact Or.inl (Or.inr hscope)
  · rintro ((⟨item, hmem, hin⟩ | hscope) | hin)
    · exact Or.inl ⟨item, List.mem_append_left _ hmem, hin⟩
    · exact Or.inr hscope
    · exact Or.inl ⟨observation, List.mem_append_right _ (List.mem_singleton.mpr rfl), hin⟩

/-- A step keeps what was delivered. -/
theorem WasDelivered.deliverFetch (h : WasDelivered entry context history x) :
    WasDelivered entry context
      (PosseClient.deliverFetch toLowerCase entry context requireTraversal history step) x :=
  wasDelivered_append.mpr (Or.inl h)

/-- An admitted step delivers its page. -/
theorem wasDelivered_deliverFetch_ok {allowance : FetchAllowance}
    (hok : admitStep toLowerCase entry context requireTraversal history step = .ok allowance)
    (hpage : (deliveredPage allowance step.returnedChars).Has x) :
    WasDelivered entry context
      (deliverFetch toLowerCase entry context requireTraversal history step) x := by
  unfold deliverFetch
  rw [hok, wasDelivered_append]
  exact Or.inr ⟨rfl, hpage⟩

/-- **An admitted step** delivers a part of its undelivered range, from the start of it. -/
theorem deliveredPage_of_ok (hfetch : Fetchable entry context requireTraversal)
    (hoffset : step.args.ByOffset) {allowance : FetchAllowance}
    (hok : admitStep toLowerCase entry context requireTraversal history step = .ok allowance) :
    ∃ start, (deliveredPage allowance step.returnedChars).start = start ∧
      (deliveredPage allowance step.returnedChars).Has start ∧
      step.args.requestedOffset ≤ start ∧ start < entry.fullSize ∧
      ∀ x, (deliveredPage allowance step.returnedChars).Has x →
        ¬ WasDelivered entry context history x := by
  unfold admitStep at hok
  rw [admitHashRefFetch_eq hfetch hoffset] at hok
  have hlimit : step.args.limit ≠ some 0 := by
    intro hzero
    obtain ⟨rejection, hrejected⟩ := @admitRange_zero entry context history step.args hzero
    rw [hok] at hrejected
    cases hrejected
  obtain ⟨start, limit, hstart, hlim, hpos, -, hreq, hfull, -, hfree, -⟩ :=
    (admitRange_exact hlimit).2 allowance hok
  unfold deliveredPage Span.Has
  simp only [hstart, hlim, Option.getD_some]
  refine ⟨start, rfl, by omega, hreq, by omega, fun x hx => hfree x hx.1 ?_⟩
  omega

/-- **No position is delivered twice.** -/
theorem deliveredPages_disjoint (hfetch : Fetchable entry context requireTraversal)
    (hoffset : ∀ step ∈ steps, step.args.ByOffset) (history : List FetchObservation) :
    (∀ page ∈ deliveredPages toLowerCase entry context requireTraversal history steps,
      ∀ x, page.Has x → ¬ WasDelivered entry context history x) ∧
    (deliveredPages toLowerCase entry context requireTraversal history steps).Pairwise
      fun page page' => ∀ x, ¬ (page.Has x ∧ page'.Has x) := by
  induction steps generalizing history with
  | nil => exact ⟨by simp [deliveredPages], List.Pairwise.nil⟩
  | cons step steps ih =>
    obtain ⟨hfresh, hpair⟩ := ih (fun step' hstep' => hoffset step' (List.mem_cons_of_mem _ hstep'))
      (deliverFetch toLowerCase entry context requireTraversal history step)
    have hlater : ∀ page ∈ deliveredPages toLowerCase entry context requireTraversal
        (deliverFetch toLowerCase entry context requireTraversal history step) steps,
        ∀ x, page.Has x → ¬ WasDelivered entry context history x :=
      fun page hpage x hx hdone => hfresh page hpage x hx hdone.deliverFetch
    unfold deliveredPages
    cases hstep : admitStep toLowerCase entry context requireTraversal history step with
    | error rejection => exact ⟨hlater, hpair⟩
    | ok allowance =>
      obtain ⟨-, -, -, -, -, hfree⟩ :=
        deliveredPage_of_ok hfetch (hoffset step List.mem_cons_self) hstep
      refine ⟨fun page hpage => ?_, List.pairwise_cons.mpr ⟨fun page hpage x hx => ?_, hpair⟩⟩
      · rcases List.mem_cons.mp hpage with rfl | hpage
        · exact hfree
        · exact hlater page hpage
      · exact hfresh page hpage x hx.2 (wasDelivered_deliverFetch_ok hstep hx.1)

open Classical in
/-- The positions from `offset` on that are not delivered yet. -/
noncomputable def undelivered (entry : FetchEntry) (context : FetchContext) (offset : ℤ)
    (history : List FetchObservation) : Finset ℤ :=
  (Finset.Ico offset entry.fullSize).filter fun x => ¬ WasDelivered entry context history x

theorem mem_undelivered :
    x ∈ undelivered entry context offset history ↔
      (offset ≤ x ∧ x < entry.fullSize) ∧ ¬ WasDelivered entry context history x := by
  simp [undelivered]

/-- **A fetch makes progress**: where something is left, it delivers a position for the first
time. -/
theorem deliverFetch_progress (hfetch : Fetchable entry context requireTraversal)
    (hoffset : step.args.ByOffset) (hlimit : step.args.limit ≠ some 0)
    (hfrom : offset ≤ step.args.requestedOffset)
    (hskipped : ∀ x, offset ≤ x → x < step.args.requestedOffset →
      WasDelivered entry context history x)
    (hleft : (undelivered entry context offset history).Nonempty) :
    (undelivered entry context offset
        (deliverFetch toLowerCase entry context requireTraversal history step)).card <
      (undelivered entry context offset history).card := by
  obtain ⟨y, hy⟩ := hleft
  obtain ⟨⟨hyge, hylt⟩, hyfree⟩ := mem_undelivered.mp hy
  have hexact : AdmissionExact entry context history step.args
      (admitStep toLowerCase entry context requireTraversal history step) := by
    unfold admitStep
    rw [admitHashRefFetch_eq hfetch hoffset]
    exact admitRange_exact hlimit
  cases hstep : admitStep toLowerCase entry context requireTraversal history step with
  | error rejection =>
    have hall := hexact.1.mp ⟨rejection, hstep⟩
    rcases lt_or_ge y step.args.requestedOffset with hbefore | hafter
    · exact absurd (hskipped y hyge hbefore) hyfree
    · exact absurd (hall y hafter hylt) hyfree
  | ok allowance =>
    obtain ⟨start, -, hhas, hreq, hfull, hfree⟩ := deliveredPage_of_ok hfetch hoffset hstep
    refine Finset.card_lt_card (Finset.ssubset_iff_of_subset ?_ |>.mpr ⟨start, ?_, ?_⟩)
    · intro x hx
      obtain ⟨hin, hundone⟩ := mem_undelivered.mp hx
      exact mem_undelivered.mpr ⟨hin, fun hdone => hundone hdone.deliverFetch⟩
    · exact mem_undelivered.mpr ⟨⟨hfrom.trans hreq, hfull⟩, hfree start hhas⟩
    · intro hmem
      exact (mem_undelivered.mp hmem).2 (wasDelivered_deliverFetch_ok hstep hhas)

/-- **Repeated fetches reach every position.** -/
theorem deliverFetches_reach (hfetch : Fetchable entry context requireTraversal)
    (hoffset : ∀ step ∈ steps, step.args.ByOffset)
    (hlimit : ∀ step ∈ steps, step.args.limit ≠ some 0)
    (hfrom : FetchesFrom toLowerCase entry context requireTraversal offset history steps)
    (hcount : (undelivered entry context offset history).card ≤ steps.length) :
    ∀ x, offset ≤ x → x < entry.fullSize → WasDelivered entry context
      (deliverFetches toLowerCase entry context requireTraversal history steps) x := by
  induction steps generalizing history with
  | nil =>
    have hempty : undelivered entry context offset history = ∅ :=
      Finset.card_eq_zero.mp (Nat.le_zero.mp hcount)
    intro x hx hlt
    by_contra hfree
    have hmem : x ∈ undelivered entry context offset history :=
      mem_undelivered.mpr ⟨⟨hx, hlt⟩, hfree⟩
    rw [hempty] at hmem
    cases hmem
  | cons step steps ih =>
    obtain ⟨⟨hge, hskipped⟩, hrest⟩ := hfrom
    refine ih (fun step' h => hoffset step' (List.mem_cons_of_mem _ h))
      (fun step' h => hlimit step' (List.mem_cons_of_mem _ h)) hrest ?_
    rcases (undelivered entry context offset history).eq_empty_or_nonempty with hnone | hleft
    · have hstill : undelivered entry context offset
          (deliverFetch toLowerCase entry context requireTraversal history step) = ∅ := by
        refine Finset.eq_empty_of_forall_notMem fun x hx => ?_
        obtain ⟨hin, hundone⟩ := mem_undelivered.mp hx
        have hmem := mem_undelivered.mpr ⟨hin, fun hdone => hundone hdone.deliverFetch⟩
        rw [hnone] at hmem
        cases hmem
      rw [hstill, Finset.card_empty]
      exact Nat.zero_le _
    · have hless : (undelivered entry context offset
          (deliverFetch toLowerCase entry context requireTraversal history step)).card <
            (undelivered entry context offset history).card :=
        deliverFetch_progress hfetch (hoffset step List.mem_cons_self)
          (hlimit step List.mem_cons_self) hge hskipped hleft
      rw [List.length_cons] at hcount
      omega

theorem card_undelivered_le :
    (undelivered entry context offset history).card ≤ (entry.fullSize - offset).toNat := by
  classical
  unfold undelivered
  exact (Finset.card_filter_le _ _).trans (Int.card_Ico _ _).le

/-- **Enforced admission.**  A fetch of a materialized ref that was not fully visible is admitted
exactly when something is left from its offset on, and then delivers the longest undelivered range
within its limit, exactly when its limit is not zero or nothing is left; no sequence of fetches
delivers a position twice, and enough of them with limits that are not zero reach every position. -/
theorem fetch_admission_exact (hfetch : Fetchable entry context requireTraversal)
    (toLowerCase : String → String) :
    (∀ history args, args.ByOffset →
      (AdmissionExact entry context history args
          (admitHashRefFetch toLowerCase (some entry) args history context true requireTraversal) ↔
        args.limit ≠ some 0 ∨
          ∀ x, args.requestedOffset ≤ x → x < entry.fullSize →
            WasDelivered entry context history x)) ∧
    (∀ history steps, (∀ step ∈ steps, step.args.ByOffset) →
      (∀ page ∈ deliveredPages toLowerCase entry context requireTraversal history steps,
        ∀ x, page.Has x → ¬ WasDelivered entry context history x) ∧
      (deliveredPages toLowerCase entry context requireTraversal history steps).Pairwise
        fun page page' => ∀ x, ¬ (page.Has x ∧ page'.Has x)) ∧
    (∀ history steps offset, (∀ step ∈ steps, step.args.ByOffset ∧ step.args.limit ≠ some 0) →
      FetchesFrom toLowerCase entry context requireTraversal offset history steps →
      (entry.fullSize - offset).toNat ≤ steps.length →
      ∀ x, offset ≤ x → x < entry.fullSize → WasDelivered entry context
        (deliverFetches toLowerCase entry context requireTraversal history steps) x) := by
  refine ⟨fun history args hoffset => ?_, fun history steps hoffset => ?_,
    fun history steps offset hsteps hfrom hcount => ?_⟩
  · rw [admitHashRefFetch_eq hfetch hoffset]
    exact admitRange_exact_iff
  · exact deliveredPages_disjoint hfetch hoffset history
  · exact deliverFetches_reach hfetch (fun step hstep => (hsteps step hstep).1)
      (fun step hstep => (hsteps step hstep).2) hfrom (card_undelivered_le.trans hcount)

/-- A stored ref of six characters that no tool response showed. -/
def sixCharRef : FetchEntry :=
  { materialized := true, payloadText := "abcdef", sizeChars := 6
    metadata := { fetchClass := "", surfacedBy := "", boundedIngress := false
                  modelVisibleScopes := [] } }

/-- A fetch of two characters after the first. -/
theorem fetch_admission_exact_two :
    AdmissionExact sixCharRef ⟨some 1, some 1⟩ [] ⟨"", none, some 1, some 2⟩
      (admitHashRefFetch id (some sixCharRef) ⟨"", none, some 1, some 2⟩ [] ⟨some 1, some 1⟩ true
        false) :=
  ((fetch_admission_exact ⟨rfl, by decide, by simp⟩ id).1 [] _ (by rfl)).mpr (Or.inl (by decide))

/-- A fetch of no characters is refused as already visible, though nothing was delivered. -/
theorem zero_limit_refused :
    ¬ AdmissionExact sixCharRef ⟨some 1, some 1⟩ [] ⟨"", none, some 0, some 0⟩
      (admitHashRefFetch id (some sixCharRef) ⟨"", none, some 0, some 0⟩ [] ⟨some 1, some 1⟩ true
        false) := by
  intro hexact
  have hrefused : admitHashRefFetch id (some sixCharRef) ⟨"", none, some 0, some 0⟩ []
      ⟨some 1, some 1⟩ true false = .error (duplicateVisible "stored_ref" .hidden) := by
    decide +kernel
  have hdone := hexact.1.mp ⟨_, hrefused⟩ 0 (by decide) (by decide +kernel)
  simp [WasDelivered, visibleScope, sixCharRef] at hdone

end PosseClient
