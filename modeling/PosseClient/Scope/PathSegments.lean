/-
# Segments of path texts

What `split("/")`, the trimming of spaces and slashes, and `path.posix.normalize` do to the segments
of a text.

* `pathParts_lead`, `pathParts_tail`: what is put before a text goes to its first segment, and what
  is put behind it to its last; `exists_trimChars` and `exists_dropEndWhile` undo a trimming.
* `scopePath` is the location of a text, as the scopes see it.  `scopePath_eq`: of a relative text
  without `..` it is the segments that are kept.
-/
import PosseClient.Scope.PathSets

namespace PosseClient

/-! ## 1. Segments of a text -/

theorem pathParts_ne_nil (cs : List Char) : pathParts cs ≠ [] := List.splitOn_ne_nil '/' cs

theorem pathParts_append_slash (a b : List Char) :
    pathParts (a ++ '/' :: b) = pathParts a ++ pathParts b := List.splitOn_append_cons_self a b

theorem pathParts_of_notMem {w : List Char} (h : '/' ∉ w) : pathParts w = [w] :=
  List.splitOn_eq_singleton h

theorem joinSegments_pathParts (cs : List Char) : joinSegments (pathParts cs) = cs :=
  List.intercalate_splitOn '/'

theorem pathParts_joinSegments {segments : List (List Char)} (hne : segments ≠ [])
    (h : ∀ s ∈ segments, '/' ∉ s) : pathParts (joinSegments segments) = segments :=
  List.splitOn_intercalate '/' h hne

/-- What a text is cut into are pieces of it without slashes. -/
theorem mem_pathParts {cs w : List Char} (h : w ∈ pathParts cs) : '/' ∉ w ∧ w ⊆ cs := by
  induction cs generalizing w with
  | nil =>
    have hw : w = [] := List.mem_singleton.mp h
    rw [hw]
    exact ⟨List.not_mem_nil, List.Subset.refl []⟩
  | cons c cs ih =>
    unfold pathParts at h ih
    rw [List.splitOn_cons_eq_if_modifyHead] at h
    split at h
    case isTrue =>
      rcases List.mem_cons.mp h with rfl | h
      · exact ⟨List.not_mem_nil, List.nil_subset _⟩
      · exact ⟨(ih h).1, List.subset_cons_of_subset c (ih h).2⟩
    case isFalse hne =>
      obtain ⟨v, vs, hsplit⟩ := List.exists_cons_of_ne_nil (List.splitOn_ne_nil '/' cs)
      rw [hsplit] at h ih
      rcases List.mem_cons.mp h with rfl | h
      · obtain ⟨hslash, hsub⟩ := ih List.mem_cons_self
        refine ⟨fun hmem => ?_, List.cons_subset_cons c hsub⟩
        rcases List.mem_cons.mp hmem with heq | hmem
        · exact hne (by simp [← heq])
        · exact hslash hmem
      · have hv := ih (List.mem_cons_of_mem v h)
        exact ⟨hv.1, List.subset_cons_of_subset c hv.2⟩

/-- The first segment of a text, and what stands behind it. -/
theorem pathParts_eq_cons {cs w : List Char} {ws : List (List Char)} (h : pathParts cs = w :: ws) :
    '/' ∉ w ∧ ((ws = [] ∧ cs = w) ∨ ∃ rest, cs = w ++ '/' :: rest ∧ pathParts rest = ws) := by
  refine ⟨(mem_pathParts (h ▸ List.mem_cons_self)).1, ?_⟩
  by_cases hslash : '/' ∈ cs
  · obtain ⟨v, rest, rfl, hv⟩ := List.eq_append_cons_of_mem hslash
    rw [pathParts_append_slash, pathParts_of_notMem hv, List.singleton_append] at h
    obtain ⟨rfl, hws⟩ := List.cons.inj h
    exact Or.inr ⟨rest, rfl, hws⟩
  · rw [pathParts_of_notMem hslash] at h
    obtain ⟨rfl, rfl⟩ := List.cons.inj h
    exact Or.inl ⟨rfl, rfl⟩

/-- What is put before a text goes to its first segment. -/
theorem pathParts_lead {lead cs w : List Char} {ws : List (List Char)} (hlead : '/' ∉ lead)
    (h : pathParts cs = w :: ws) : pathParts (lead ++ cs) = (lead ++ w) :: ws := by
  obtain ⟨hw, ⟨rfl, rfl⟩ | ⟨rest, rfl, rfl⟩⟩ := pathParts_eq_cons h
  · refine pathParts_of_notMem fun hmem => ?_
    exact (List.mem_append.mp hmem).elim hlead hw
  · have hboth : '/' ∉ lead ++ w := fun hmem => (List.mem_append.mp hmem).elim hlead hw
    rw [← List.append_assoc, pathParts_append_slash, pathParts_of_notMem hboth]
    rfl

/-- What is put behind a text goes to its last segment. -/
theorem pathParts_tail {tail w : List Char} (htail : '/' ∉ tail) (ws : List (List Char)) :
    ∀ {cs : List Char}, pathParts cs = ws ++ [w] → pathParts (cs ++ tail) = ws ++ [w ++ tail] := by
  induction ws with
  | nil =>
    intro cs h
    obtain ⟨hw, ⟨-, rfl⟩ | ⟨rest, -, hrest⟩⟩ := pathParts_eq_cons h
    · refine pathParts_of_notMem fun hmem => ?_
      exact (List.mem_append.mp hmem).elim hw htail
    · exact absurd hrest (pathParts_ne_nil rest)
  | cons v ws ih =>
    intro cs h
    obtain ⟨hv, ⟨hnil, -⟩ | ⟨rest, rfl, hrest⟩⟩ := pathParts_eq_cons h
    · simp at hnil
    · rw [List.append_assoc, List.cons_append, pathParts_append_slash, pathParts_of_notMem hv,
        ih hrest]
      rfl

/-! ## 2. Spaces and slashes at the ends -/

theorem slash_not_trimmed : isTrimmed '/' = false := by decide

theorem notMem_of_trimmed {s : List Char} (h : ∀ c ∈ s, isTrimmed c = true) : '/' ∉ s := by
  intro hmem
  have hslash := h '/' hmem
  rw [slash_not_trimmed] at hslash
  cases hslash

theorem dropWhile_lead {p : Char → Bool} {s l : List Char} (hs : ∀ c ∈ s, p c = true)
    (hl : ∀ c, l.head? = some c → p c = false) : (s ++ l).dropWhile p = l := by
  rw [List.dropWhile_append_of_pos hs]
  cases l with
  | nil => rfl
  | cons c l => rw [List.dropWhile_cons_of_neg (by simp [hl c rfl])]

theorem dropEndWhile_tail {p : Char → Bool} {l s : List Char} (hs : ∀ c ∈ s, p c = true)
    (hl : ∀ c, l.getLast? = some c → p c = false) : dropEndWhile p (l ++ s) = l := by
  unfold dropEndWhile
  rw [List.reverse_append, dropWhile_lead (fun c hc => hs c (List.mem_reverse.mp hc)),
    List.reverse_reverse]
  intro c hc
  rw [List.head?_reverse] at hc
  exact hl c hc

theorem exists_dropEndWhile (p : Char → Bool) (l : List Char) :
    ∃ s, l = dropEndWhile p l ++ s ∧ (∀ c ∈ s, p c = true) ∧
      ∀ c, (dropEndWhile p l).getLast? = some c → p c = false := by
  refine ⟨(l.reverse.takeWhile p).reverse, ?_, fun c hc => ?_, fun c hc => ?_⟩
  · unfold dropEndWhile
    rw [← List.reverse_append, List.takeWhile_append_dropWhile, List.reverse_reverse]
  · exact List.mem_takeWhile_imp (List.mem_reverse.mp hc)
  · unfold dropEndWhile at hc
    rw [List.getLast?_reverse] at hc
    have hnot := List.head?_dropWhile_not p l.reverse
    rw [hc] at hnot
    exact hnot

/-- A text that is trimmed to something. -/
theorem exists_trimChars {cs : List Char} (h : trimChars cs ≠ []) :
    ∃ lead tail, cs = lead ++ trimChars cs ++ tail ∧ (∀ c ∈ lead, isTrimmed c = true) ∧
      (∀ c ∈ tail, isTrimmed c = true) ∧
      (∀ c, (trimChars cs).head? = some c → isTrimmed c = false) ∧
      ∀ c, (trimChars cs).getLast? = some c → isTrimmed c = false := by
  obtain ⟨tail, hsplit, htail, hlast⟩ := exists_dropEndWhile isTrimmed (cs.dropWhile isTrimmed)
  refine ⟨cs.takeWhile isTrimmed, tail, ?_, fun c hc => List.mem_takeWhile_imp hc, htail,
    fun c hc => ?_, hlast⟩
  · rw [List.append_assoc, trimChars, ← hsplit, List.takeWhile_append_dropWhile]
  · have hhead : (cs.dropWhile isTrimmed).head? = some c := by
      rw [hsplit]
      exact List.head?_append_of_ne_nil _ h ▸ hc
    have hnot := List.head?_dropWhile_not isTrimmed cs
    rw [hhead] at hnot
    exact hnot

theorem trimChars_between (lead cs tail : List Char) (hlead : ∀ c ∈ lead, isTrimmed c = true)
    (htail : ∀ c ∈ tail, isTrimmed c = true) (hne : cs ≠ [])
    (hhead : ∀ c, cs.head? = some c → isTrimmed c = false)
    (hlast : ∀ c, cs.getLast? = some c → isTrimmed c = false) :
    trimChars (lead ++ cs ++ tail) = cs := by
  unfold trimChars
  rw [List.append_assoc, dropWhile_lead hlead, dropEndWhile_tail htail hlast]
  intro c hc
  exact hhead c (List.head?_append_of_ne_nil _ hne ▸ hc)

/-! ## 3. The location of a text -/

/-- A segment `path.posix.normalize` keeps, `..` apart. -/
def keptSegment (part : List Char) : Bool := part ≠ [] ∧ part ≠ ['.']

/-- **The location of a text**, as the scopes see it: `normPath` without slashes at the end. -/
def scopePath (p : String) : List Char := stripTrailingSlashes (normPathChars p.toList)

theorem keptSegment_iff {part : List Char} : keptSegment part = true ↔ part ≠ [] ∧ part ≠ ['.'] :=
  decide_eq_true_iff

theorem normalizeSegments_of_no_parent {above : Bool} {parts : List (List Char)}
    (h : ['.', '.'] ∉ parts) : normalizeSegments above parts = parts.filter keptSegment := by
  have hfold : ∀ acc : List (List Char),
      parts.foldl (pushSegment above) acc = acc ++ parts.filter keptSegment := by
    induction parts with
    | nil =>
      intro acc
      exact (List.append_nil acc).symm
    | cons part parts ih =>
      intro acc
      have hne : part ≠ ['.', '.'] := fun heq => h (heq ▸ List.mem_cons_self)
      rw [List.foldl_cons, ih (fun hmem => h (List.mem_cons_of_mem part hmem)), List.filter_cons,
        pushSegment]
      by_cases hkept : part = [] ∨ part = ['.']
      · have hdrop : keptSegment part = false := by
          rw [Bool.eq_false_iff, ne_eq, keptSegment_iff]
          tauto
        rw [if_pos hkept, hdrop]
        rfl
      · rw [if_neg hkept, if_neg hne, keptSegment_iff.mpr (not_or.mp hkept), if_pos rfl,
          List.append_assoc]
        rfl
  exact hfold []

/-- What `normalizeString` keeps are segments of the text. -/
theorem mem_normalizeSegments {above : Bool} {parts : List (List Char)} {s : List Char}
    (h : s ∈ normalizeSegments above parts) : s ∈ parts ∧ keptSegment s = true := by
  have hfold : ∀ (rest acc : List (List Char)), (∀ s ∈ acc, s ∈ parts ∧ keptSegment s = true) →
      rest ⊆ parts → ∀ s ∈ rest.foldl (pushSegment above) acc,
        s ∈ parts ∧ keptSegment s = true := by
    intro rest
    induction rest with
    | nil => exact fun acc hacc _ => hacc
    | cons part rest ih =>
      intro acc hacc hsub
      rw [List.foldl_cons]
      refine ih _ ?_ (fun x hx => hsub (List.mem_cons_of_mem part hx))
      have hpart : part ∈ parts := hsub List.mem_cons_self
      intro s hs
      unfold pushSegment at hs
      split_ifs at hs with hdrop hparent hroot habove
      · exact hacc s hs
      · rcases List.mem_append.mp hs with hs | hs
        · exact hacc s hs
        · rw [List.mem_singleton.mp hs]
          exact ⟨hpart, keptSegment_iff.mpr (not_or.mp hdrop)⟩
      · exact hacc s hs
      · exact hacc s (List.mem_of_mem_dropLast hs)
      · rcases List.mem_append.mp hs with hs | hs
        · exact hacc s hs
        · rw [List.mem_singleton.mp hs]
          exact ⟨hpart, keptSegment_iff.mpr (not_or.mp hdrop)⟩
  exact hfold parts [] (fun s hs => absurd hs List.not_mem_nil) (List.Subset.refl _) s h

theorem stripDotSlash_of_ne {cs w : List Char} {ws : List (List Char)}
    (h : pathParts cs = w :: ws) (hne : w ≠ ['.']) : stripDotSlash cs = cs := by
  refine if_neg fun hdot => ?_
  obtain ⟨rest, rfl⟩ := List.isPrefixOf_iff_prefix.mp hdot
  have hparts : pathParts (['.', '/'] ++ rest) = ['.'] :: pathParts rest := by
    change pathParts (['.'] ++ '/' :: rest) = _
    rw [pathParts_append_slash, pathParts_of_notMem (by decide)]
    rfl
  rw [hparts] at h
  exact hne (List.cons.inj h).1.symm

/-- A text whose last segment is not empty ends without a slash. -/
theorem getLast?_ne_slash {cs w : List Char} {ws : List (List Char)}
    (h : pathParts cs = ws ++ [w]) (hne : w ≠ []) :
    ∀ c, cs.getLast? = some c → decide (c = '/') = false := by
  intro c hc
  rw [decide_eq_false_iff_not]
  rintro rfl
  obtain ⟨front, rfl⟩ := List.getLast?_eq_some_iff.mp hc
  rw [pathParts_append_slash] at h
  have hlast : [[]] = [w] := (List.append_inj' h rfl).2
  exact hne (List.cons.inj hlast).1.symm

/-- The location of kept segments, with slashes behind them or not. -/
theorem strip_joinSegments {segments : List (List Char)} (hne : segments ≠ [])
    (h : ∀ s ∈ segments, '/' ∉ s ∧ keptSegment s = true) {slashes : List Char}
    (hslashes : slashes = [] ∨ slashes = ['/']) :
    stripTrailingSlashes (stripDotSlash (joinSegments segments ++ slashes)) =
      joinSegments segments := by
  have hparts : pathParts (joinSegments segments) = segments :=
    pathParts_joinSegments hne fun s hs => (h s hs).1
  obtain ⟨w, ws, hcons⟩ := List.exists_cons_of_ne_nil hne
  have hfirst : w ≠ ['.'] := (keptSegment_iff.mp (h w (hcons ▸ List.mem_cons_self)).2).2
  have hdot : stripDotSlash (joinSegments segments ++ slashes) =
      joinSegments segments ++ slashes := by
    rcases hslashes with rfl | rfl
    · rw [List.append_nil]
      exact stripDotSlash_of_ne (hparts.trans hcons) hfirst
    · have hbehind : pathParts (joinSegments segments ++ '/' :: []) = w :: (ws ++ [[]]) := by
        rw [pathParts_append_slash, hparts, hcons]
        rfl
      exact stripDotSlash_of_ne hbehind hfirst
  rw [hdot]
  refine dropEndWhile_tail ?_ ?_
  · rcases hslashes with rfl | rfl
    · simp
    · simp
  · have hlast := h (segments.getLast hne) (List.getLast_mem hne)
    refine getLast?_ne_slash (hparts.trans (List.dropLast_append_getLast hne).symm) ?_
    exact (keptSegment_iff.mp hlast.2).1

theorem joinSegments_ne_nil {segments : List (List Char)} (hne : segments ≠ [])
    (h : ∀ s ∈ segments, '/' ∉ s ∧ keptSegment s = true) : joinSegments segments ≠ [] := by
  intro hnil
  have hparts := pathParts_joinSegments hne fun s hs => (h s hs).1
  rw [hnil] at hparts
  have hmem : [] ∈ segments := hparts ▸ List.mem_singleton.mpr rfl
  exact (keptSegment_iff.mp (h [] hmem).2).1 rfl

/-- **The location of a relative text** that does not go through a parent. -/
theorem scopePath_eq {p : String} (hrel : (trimChars (forwardSlashes p.toList)).head? ≠ some '/')
    (hparent : ['.', '.'] ∉ pathParts (trimChars (forwardSlashes p.toList)))
    (hkept : (pathParts (trimChars (forwardSlashes p.toList))).filter keptSegment ≠ []) :
    scopePath p =
      joinSegments ((pathParts (trimChars (forwardSlashes p.toList))).filter keptSegment) := by
  unfold scopePath normPathChars
  generalize trimChars (forwardSlashes p.toList) = t at hrel hparent hkept ⊢
  have hall : ∀ s ∈ (pathParts t).filter keptSegment, '/' ∉ s ∧ keptSegment s = true :=
    fun s hs => ⟨(mem_pathParts (List.mem_filter.mp hs).1).1, (List.mem_filter.mp hs).2⟩
  have hne : t ≠ [] := by
    rintro rfl
    exact hkept (by decide)
  have habsolute : (t.head? == some '/') = false := by simpa using hrel
  have hbody := joinSegments_ne_nil hkept hall
  unfold posixNormalize
  rw [if_neg hne]
  dsimp only
  rw [habsolute, normalizeSegments_of_no_parent hparent, if_neg hbody, if_neg Bool.false_ne_true,
    List.nil_append]
  refine strip_joinSegments hkept hall ?_
  split
  · exact Or.inr rfl
  · exact Or.inl rfl

end PosseClient
