/-
# Half-open spans and their merging

Spans `[start, stop)` over a linear order, sorted by where they start and merged where they overlap
or touch.

* `mergeSorted_separated`: what is merged is separated: each span ends before the next one starts.
* `mem_mergeSorted`: merging changes no position's membership.
* `covers_gaps`, `gaps_separated`: the gaps between separated spans are separated and hold the rest.
* `Separated.card_covered`: the lengths of separated spans add up to the number of their positions.
-/
import Mathlib

namespace PosseClient.Spans

/-- The span `[start, stop)`. -/
structure Span (α : Type*) where
  start : α
  stop : α
  deriving DecidableEq, Repr

variable {α : Type*} [LinearOrder α]

/-- The positions of a span. -/
def Span.Has (s : Span α) (x : α) : Prop := s.start ≤ x ∧ x < s.stop

instance (s : Span α) (x : α) : Decidable (s.Has x) := inferInstanceAs (Decidable (_ ∧ _))

/-- Some span of the list has the position. -/
def Covers (spans : List (Span α)) (x : α) : Prop := ∃ s ∈ spans, s.Has x

instance (spans : List (Span α)) (x : α) : Decidable (Covers spans x) :=
  inferInstanceAs (Decidable (∃ s ∈ spans, s.Has x))

/-- No span is empty, and each ends before the next one starts. -/
def Separated (spans : List (Span α)) : Prop :=
  (∀ s ∈ spans, s.start < s.stop) ∧ spans.Pairwise fun s t => s.stop < t.start

/-- Merge a span into the merged ones, the last of which stands first. -/
def mergeInto (merged : List (Span α)) (s : Span α) : List (Span α) :=
  match merged with
  | [] => [s]
  | prior :: earlier =>
    if prior.stop < s.start then s :: prior :: earlier
    else ⟨prior.start, max prior.stop s.stop⟩ :: earlier

theorem mergeInto_cons (prior : Span α) (earlier : List (Span α)) (s : Span α) :
    mergeInto (prior :: earlier) s =
      if prior.stop < s.start then s :: prior :: earlier
      else ⟨prior.start, max prior.stop s.stop⟩ :: earlier := rfl

/-- Merge spans that are sorted by where they start. -/
def mergeSorted (spans : List (Span α)) : List (Span α) := (spans.foldl mergeInto []).reverse

variable {spans merged : List (Span α)} {s : Span α} {x : α}

/-! ## 1. Positions -/

@[simp] theorem not_covers_nil : ¬ Covers [] x := by simp [Covers]

theorem covers_cons : Covers (s :: spans) x ↔ s.Has x ∨ Covers spans x := by
  simp [Covers]

theorem covers_reverse : Covers spans.reverse x ↔ Covers spans x := by
  simp [Covers]

theorem Covers.of_perm {spans' : List (Span α)} (h : spans.Perm spans') :
    Covers spans x ↔ Covers spans' x := by
  simp [Covers, h.mem_iff]

/-! ## 2. One span more -/

/-- A span that starts no earlier than the last merged one merges into the positions of both. -/
theorem covers_mergeInto (hlast : ∀ t ∈ merged.head?, t.start ≤ s.start) :
    Covers (mergeInto merged s) x ↔ Covers merged x ∨ s.Has x := by
  cases merged with
  | nil => simp [mergeInto, covers_cons]
  | cons prior earlier =>
    have hstart : prior.start ≤ s.start := hlast prior rfl
    rw [mergeInto_cons]
    split
    · rw [covers_cons]
      exact or_comm
    case isFalse htouch =>
      have hjoin : (⟨prior.start, max prior.stop s.stop⟩ : Span α).Has x ↔
          prior.Has x ∨ s.Has x := by
        have hle : s.start ≤ prior.stop := not_lt.mp htouch
        simp only [Span.Has, lt_max_iff]
        constructor
        · rintro ⟨hx, hlt | hlt⟩
          · exact Or.inl ⟨hx, hlt⟩
          · rcases lt_or_ge x prior.stop with hp | hp
            · exact Or.inl ⟨hx, hp⟩
            · exact Or.inr ⟨hle.trans hp, hlt⟩
        · rintro (⟨hx, hlt⟩ | ⟨hx, hlt⟩)
          · exact ⟨hx, Or.inl hlt⟩
          · exact ⟨hstart.trans hx, Or.inr hlt⟩
      rw [covers_cons, covers_cons, hjoin]
      tauto

/-- The merged spans, the last one first. -/
def Stacked (merged : List (Span α)) : Prop :=
  (∀ s ∈ merged, s.start < s.stop) ∧ merged.Pairwise fun s t => t.stop < s.start

theorem Stacked.mergeInto (h : Stacked merged) (hne : s.start < s.stop)
    (hlast : ∀ t ∈ merged.head?, t.start ≤ s.start) : Stacked (mergeInto merged s) := by
  cases merged with
  | nil => exact ⟨by simpa [Spans.mergeInto] using hne, by simp [Spans.mergeInto]⟩
  | cons prior earlier =>
    obtain ⟨hall, hpair⟩ := h
    obtain ⟨hprior, hrest⟩ := List.pairwise_cons.mp hpair
    have hpos : prior.start < prior.stop := hall prior List.mem_cons_self
    rw [mergeInto_cons]
    split
    case isTrue hgap =>
      refine ⟨?_, List.pairwise_cons.mpr ⟨?_, hpair⟩⟩
      · intro t ht
        rcases List.mem_cons.mp ht with rfl | ht
        · exact hne
        · exact hall t ht
      · intro t ht
        rcases List.mem_cons.mp ht with rfl | ht
        · exact hgap
        · exact ((hprior t ht).trans hpos).trans hgap
    case isFalse htouch =>
      refine ⟨?_, List.pairwise_cons.mpr ⟨fun t ht => hprior t ht, hrest⟩⟩
      intro t ht
      rcases List.mem_cons.mp ht with rfl | ht
      · exact lt_max_of_lt_left hpos
      · exact hall t (List.mem_cons_of_mem _ ht)

theorem head?_mergeInto_start (hlast : ∀ t ∈ merged.head?, t.start ≤ s.start) :
    ∀ t ∈ (mergeInto merged s).head?, t.start ≤ s.start := by
  cases merged with
  | nil => simp [mergeInto]
  | cons prior earlier =>
    rw [mergeInto_cons]
    split
    · simp
    · simpa using hlast

/-! ## 3. All spans -/

/-- The merging of sorted spans, from the ones merged so far. -/
theorem foldl_mergeInto (hsorted : spans.Pairwise fun s t => s.start ≤ t.start)
    (hne : ∀ s ∈ spans, s.start < s.stop) (h : Stacked merged)
    (hlast : ∀ t ∈ merged.head?, ∀ s ∈ spans, t.start ≤ s.start) :
    Stacked (spans.foldl mergeInto merged) ∧
      ∀ x, Covers (spans.foldl mergeInto merged) x ↔ Covers merged x ∨ Covers spans x := by
  induction spans generalizing merged with
  | nil => exact ⟨h, fun x => by simp⟩
  | cons s spans ih =>
    obtain ⟨hfirst, hrest⟩ := List.pairwise_cons.mp hsorted
    have hs : s.start < s.stop := hne s List.mem_cons_self
    have hle : ∀ t ∈ merged.head?, t.start ≤ s.start :=
      fun t ht => hlast t ht s List.mem_cons_self
    obtain ⟨hstacked, hcovers⟩ := ih hrest (fun t ht => hne t (List.mem_cons_of_mem _ ht))
      (h.mergeInto hs hle) fun t ht u hu => (head?_mergeInto_start hle t ht).trans (hfirst u hu)
    refine ⟨hstacked, fun x => ?_⟩
    rw [List.foldl_cons, hcovers x, covers_mergeInto hle, covers_cons, or_assoc]

/-- **What is merged is separated.** -/
theorem mergeSorted_separated (hsorted : spans.Pairwise fun s t => s.start ≤ t.start)
    (hne : ∀ s ∈ spans, s.start < s.stop) : Separated (mergeSorted spans) := by
  have hnil : Stacked ([] : List (Span α)) := ⟨by simp, List.Pairwise.nil⟩
  obtain ⟨⟨hall, hpair⟩, -⟩ := foldl_mergeInto hsorted hne hnil (by simp)
  exact ⟨fun s hs => hall s (List.mem_reverse.mp hs), List.pairwise_reverse.mpr hpair⟩

/-- **Merging changes no membership.** -/
theorem covers_mergeSorted (hsorted : spans.Pairwise fun s t => s.start ≤ t.start)
    (hne : ∀ s ∈ spans, s.start < s.stop) : Covers (mergeSorted spans) x ↔ Covers spans x := by
  have hnil : Stacked ([] : List (Span α)) := ⟨by simp, List.Pairwise.nil⟩
  have h := (foldl_mergeInto hsorted hne hnil (by simp)).2 x
  rw [mergeSorted, covers_reverse, h]
  simp

/-! ## 4. Gaps -/

theorem Separated.tail (h : Separated (s :: spans)) : Separated spans :=
  ⟨fun t ht => h.1 t (List.mem_cons_of_mem _ ht), (List.pairwise_cons.mp h.2).2⟩

theorem Separated.head_lt (h : Separated (s :: spans)) {t : Span α} (ht : t ∈ spans) :
    s.stop < t.start := (List.pairwise_cons.mp h.2).1 t ht

/-- Before the first of separated spans nothing is covered. -/
theorem Separated.not_covers_of_lt (h : Separated (s :: spans)) (hx : x < s.start) :
    ¬ Covers (s :: spans) x := by
  rintro ⟨t, ht, hhas⟩
  rcases List.mem_cons.mp ht with rfl | ht
  · exact absurd hhas.1 (not_le.mpr hx)
  · have hs : s.start < s.stop := h.1 s List.mem_cons_self
    exact absurd hhas.1 (not_le.mpr (hx.trans (hs.trans (h.head_lt ht))))

/-- The gaps between spans, from `cursor` up to `stop`. -/
def gaps (stop : α) : α → List (Span α) → List (Span α)
  | cursor, [] => if cursor < stop then [⟨cursor, stop⟩] else []
  | cursor, s :: spans =>
    if cursor < s.start then ⟨cursor, s.start⟩ :: gaps stop (max cursor s.stop) spans
    else gaps stop (max cursor s.stop) spans

variable {cursor stop : α}

theorem le_start_of_mem_gaps {g : Span α} (hg : g ∈ gaps stop cursor spans) : cursor ≤ g.start := by
  induction spans generalizing cursor with
  | nil =>
    unfold gaps at hg
    split_ifs at hg
    · rw [List.mem_singleton.mp hg]
    · cases hg
  | cons s spans ih =>
    have hlater : g ∈ gaps stop (max cursor s.stop) spans → cursor ≤ g.start :=
      fun hg => (le_max_left _ _).trans (ih hg)
    unfold gaps at hg
    split_ifs at hg
    · rcases List.mem_cons.mp hg with rfl | hg
      · exact le_rfl
      · exact hlater hg
    · exact hlater hg

/-- **The gaps are separated.** -/
theorem gaps_separated (h : Separated spans) : Separated (gaps stop cursor spans) := by
  induction spans generalizing cursor with
  | nil =>
    unfold gaps
    split_ifs with hlt
    · exact ⟨by simpa using hlt, List.pairwise_singleton _ _⟩
    · exact ⟨by simp, List.Pairwise.nil⟩
  | cons s spans ih =>
    have hs : s.start < s.stop := h.1 s List.mem_cons_self
    obtain ⟨hall, hpair⟩ := @ih (max cursor s.stop) h.tail
    unfold gaps
    split_ifs with hlt
    · refine ⟨fun g hg => ?_, List.pairwise_cons.mpr ⟨fun g hg => ?_, hpair⟩⟩
      · rcases List.mem_cons.mp hg with rfl | hg
        · exact hlt
        · exact hall g hg
      · exact (hs.trans_le (le_max_right _ _)).trans_le (le_start_of_mem_gaps hg)
    · exact ⟨hall, hpair⟩

/-- **The gaps hold what the spans leave.** -/
theorem covers_gaps (h : Separated spans) (hstop : ∀ s ∈ spans, s.stop ≤ stop) :
    Covers (gaps stop cursor spans) x ↔ cursor ≤ x ∧ x < stop ∧ ¬ Covers spans x := by
  induction spans generalizing cursor with
  | nil =>
    unfold gaps
    split_ifs with hlt
    · simp [covers_cons, Span.Has]
    · simp only [not_covers_nil, not_false_eq_true, and_true, false_iff, not_and, not_lt]
      exact fun hx => (not_lt.mp hlt).trans hx
  | cons s spans ih =>
    have hs : s.start < s.stop := h.1 s List.mem_cons_self
    have hend : s.stop ≤ stop := hstop s List.mem_cons_self
    have hrest := @ih (max cursor s.stop) h.tail fun t ht => hstop t (List.mem_cons_of_mem _ ht)
    have hafter : Covers spans x → s.stop < x := by
      rintro ⟨t, ht, hhas⟩
      exact (h.head_lt ht).trans_le hhas.1
    have hsplit : Covers (gaps stop cursor (s :: spans)) x ↔
        (cursor ≤ x ∧ x < s.start) ∨ Covers (gaps stop (max cursor s.stop) spans) x := by
      rw [gaps]
      split_ifs with hlt
      · rw [covers_cons]
        rfl
      · refine (or_iff_right ?_).symm
        exact fun hx => hlt (hx.1.trans_lt hx.2)
    rw [hsplit, hrest, covers_cons, max_le_iff, Span.Has]
    constructor
    · rintro (⟨hx, hlt⟩ | ⟨⟨hx, hge⟩, hlt, hnone⟩)
      · refine ⟨hx, (hlt.trans hs).trans_le hend, ?_⟩
        rintro (⟨hin, -⟩ | hcov)
        · exact absurd hin (not_le.mpr hlt)
        · exact absurd (hafter hcov) (not_lt.mpr (hlt.trans hs).le)
      · refine ⟨hx, hlt, ?_⟩
        rintro (⟨-, hin⟩ | hcov)
        · exact absurd hin (not_lt.mpr hge)
        · exact hnone hcov
    · rintro ⟨hx, hlt, hnone⟩
      rcases lt_or_ge x s.start with hbefore | hfrom
      · exact Or.inl ⟨hx, hbefore⟩
      · refine Or.inr ⟨⟨hx, ?_⟩, hlt, fun hcov => hnone (Or.inr hcov)⟩
        exact not_lt.mp fun hin => hnone (Or.inl ⟨hfrom, hin⟩)

/-! ## 5. Lengths -/

/-- **The lengths of separated spans** add up to the number of the positions they cover. -/
theorem Separated.card_covered {spans : List (Span ℤ)} (h : Separated spans) {low high : ℤ}
    (hlow : ∀ s ∈ spans, low ≤ s.start) (hhigh : ∀ s ∈ spans, s.stop ≤ high) :
    (((Finset.Ico low high).filter (Covers spans)).card : ℤ) =
      (spans.map fun s => s.stop - s.start).sum := by
  induction spans with
  | nil => simp [Covers]
  | cons s spans ih =>
    have hs : s.start < s.stop := h.1 s List.mem_cons_self
    have hls := hlow s List.mem_cons_self
    have hhs := hhigh s List.mem_cons_self
    have hsplit : (Finset.Ico low high).filter (Covers (s :: spans)) =
        Finset.Ico s.start s.stop ∪ (Finset.Ico low high).filter (Covers spans) := by
      ext x
      simp only [Finset.mem_filter, Finset.mem_union, Finset.mem_Ico, covers_cons, Span.Has]
      constructor
      · rintro ⟨hx, hin | hcov⟩
        · exact Or.inl hin
        · exact Or.inr ⟨hx, hcov⟩
      · rintro (hin | ⟨hx, hcov⟩)
        · exact ⟨by omega, Or.inl hin⟩
        · exact ⟨hx, Or.inr hcov⟩
    have hdisjoint : Disjoint (Finset.Ico s.start s.stop)
        ((Finset.Ico low high).filter (Covers spans)) := by
      rw [Finset.disjoint_left]
      intro x hx hcov
      obtain ⟨t, ht, hhas⟩ := (Finset.mem_filter.mp hcov).2
      have hlt := h.head_lt ht
      have hstop := (Finset.mem_Ico.mp hx).2
      have hge := hhas.1
      omega
    rw [hsplit, Finset.card_union_of_disjoint hdisjoint, Int.card_Ico, Nat.cast_add,
      ih h.tail (fun t ht => hlow t (List.mem_cons_of_mem _ ht))
        (fun t ht => hhigh t (List.mem_cons_of_mem _ ht)), List.map_cons, List.sum_cons]
    omega

end PosseClient.Spans
