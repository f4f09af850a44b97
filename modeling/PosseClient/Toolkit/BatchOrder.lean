/-
# The order of a batch

What `applyBatchEdits` makes of a content does not depend on the order in which the edits come.

* `coreRuns_spec`: the runs of the line edits that are left.
* `coalesce_spans`: the spans that are applied; merging a run never fails.
* `appliedSpans_pairwise`: start and end tell them apart.
* `applyBatchEdits_perm`: an order of the edits and another one.
-/
import PosseClient.Toolkit.BatchSpans

namespace PosseClient

open Json KeySort

variable {α β : Type*} {content : Utf16} {S S' : List ResolvedSpan}

/-! ## 1. Runs without places -/

theorem pushRun_map (f : α → β) (runs : List (List (α × LineEdit))) (item : α × LineEdit) :
    pushRun (runs.map (List.map (Prod.map f id))) (Prod.map f id item) =
      (pushRun runs item).map (List.map (Prod.map f id)) := by
  rcases List.eq_nil_or_concat' runs with rfl | ⟨init, run, rfl⟩
  · simp [pushRun]
  · rcases List.eq_nil_or_concat' run with rfl | ⟨front, last, rfl⟩
    · simp [pushRun]
    · simp only [pushRun, List.map_append, List.map_cons, List.map_nil, List.getLast?_append,
        List.getLast?_singleton, Option.some_or, Prod.map_snd, id_eq, List.dropLast_concat]
      split_ifs <;> simp

theorem foldl_pushRun_map (f : α → β) (items : List (α × LineEdit))
    (runs : List (List (α × LineEdit))) :
    (items.map (Prod.map f id)).foldl pushRun (runs.map (List.map (Prod.map f id))) =
      (items.foldl pushRun runs).map (List.map (Prod.map f id)) := by
  induction items generalizing runs with
  | nil => rfl
  | cons item items ih => rw [List.map_cons, List.foldl_cons, pushRun_map, ih, List.foldl_cons]

/-- The line items of spans, by their first lines. -/
def coreItems (S : List ResolvedSpan) : List (EditSpan × LineEdit) :=
  (S.filterMap fun r => r.2.map fun line => (r.1, line)).mergeSort fun a b =>
    decide (a.2.first ≤ b.2.first)

/-- Their runs. -/
def coreRuns (S : List ResolvedSpan) : List (List (EditSpan × LineEdit)) :=
  (coreItems S).foldl pushRun []

theorem lineItems_core (spans : List PlacedSpan) :
    (lineItems spans).map (Prod.map PlacedSpan.span id) =
      coreItems (spans.map PlacedSpan.core) := by
  unfold lineItems coreItems
  have hsort := @List.map_mergeSort _ _
    (fun a b : PlacedSpan × LineEdit => decide (a.2.first ≤ b.2.first))
    (fun a b : EditSpan × LineEdit => decide (a.2.first ≤ b.2.first))
    (Prod.map PlacedSpan.span id)
    (spans.filterMap fun a => a.line.map fun line => (a, line)) fun _ _ _ _ => rfl
  rw [hsort, List.map_filterMap, List.filterMap_map]
  refine congrArg (List.mergeSort · _) (List.filterMap_congr fun a _ => ?_)
  cases hline : a.line <;> simp [PlacedSpan.core, hline]

theorem lineRuns_core (spans : List PlacedSpan) :
    (lineRuns spans).map (List.map (Prod.map PlacedSpan.span id)) =
      coreRuns (spans.map PlacedSpan.core) := by
  unfold lineRuns coreRuns
  rw [← lineItems_core, ← foldl_pushRun_map, List.map_nil]

/-! ## 2. Spans that do not overlap -/

/-- Two of a list that do not stand in a symmetric relation of its elements are one. -/
theorem eq_of_pairwise {R : α → α → Prop} {l : List α} (h : l.Pairwise R)
    (hsymm : ∀ a b, R a b → R b a) {a b : α} (ha : a ∈ l) (hb : b ∈ l) (hab : ¬ R a b) :
    a = b := by
  by_contra hne
  have : Std.Symm R := ⟨hsymm⟩
  exact hab (h.forall ha hb hne)

/-- Spans of a batch that do not overlap. -/
structure ClearSpans (content : Utf16) (S : List ResolvedSpan) : Prop where
  valid : ∀ r ∈ S, ValidSpan content r
  pairwise : S.Pairwise fun a b => clash a b = false

theorem ClearSpans.eq_of_clash (h : ClearSpans content S) {a b : ResolvedSpan} (ha : a ∈ S)
    (hb : b ∈ S) (hclash : clash a b = true) : a = b :=
  eq_of_pairwise h.pairwise (fun a b hab => (clash_comm b a).trans hab) ha hb (by simp [hclash])

theorem mem_coreItems {item : EditSpan × LineEdit} :
    item ∈ coreItems S ↔ (item.1, some item.2) ∈ S := by
  unfold coreItems
  rw [(List.mergeSort_perm _ _).mem_iff, List.mem_filterMap]
  constructor
  · rintro ⟨⟨span, line⟩, hr, hitem⟩
    obtain ⟨l, rfl, rfl⟩ := Option.map_eq_some_iff.mp hitem
    exact hr
  · intro h
    exact ⟨_, h, rfl⟩

/-- **The line items do not depend on the order of the spans.** -/
theorem coreItems_perm (h : ClearSpans content S) (hperm : S.Perm S') :
    coreItems S = coreItems S' := by
  have hkey : ∀ a b : EditSpan × LineEdit,
      decide (a.2.first ≤ b.2.first) = true ↔ a.2.first ≤ b.2.first := by simp
  refine mergeSort_eq_of_perm hkey ?_ (hperm.filterMap _)
  intro a ha b hb hfirst
  have hmem : ∀ c ∈ S.filterMap (fun r => r.2.map fun line => (r.1, line)),
      (c.1, some c.2) ∈ S := fun c hc =>
    mem_coreItems.mp ((List.mergeSort_perm _ _).mem_iff.mpr hc)
  have hla := (h.valid _ (hmem a ha)).ordered _ rfl
  have hlb := (h.valid _ (hmem b hb)).ordered _ rfl
  have hsame := h.eq_of_clash (hmem a ha) (hmem b hb) (by
    have h1 := hla.first_le
    have h2 := hlb.first_le
    simp only [clash, PlacedSpan.overlaps, decide_eq_true_eq]
    omega)
  simp only [Prod.mk.injEq, Option.some.injEq] at hsame
  exact Prod.ext hsame.1 hsame.2

theorem coreItems_pairwise (h : ClearSpans content S) :
    (coreItems S).Pairwise fun a b => a.2.Before b.2 := by
  have hsorted : (coreItems S).Pairwise fun a b => a.2.first ≤ b.2.first :=
    pairwise_mergeSort (by simp) _
  have hclear : (coreItems S).Pairwise fun a b =>
      clash (a.1, some a.2) (b.1, some b.2) = false := by
    have hsymm : ∀ a b : EditSpan × LineEdit, clash (a.1, some a.2) (b.1, some b.2) = false →
        clash (b.1, some b.2) (a.1, some a.2) = false := fun a b hab => (clash_comm _ _).trans hab
    refine ((List.mergeSort_perm _ _).pairwise_iff (hsymm _ _)).mpr ?_
    refine List.pairwise_filterMap.mpr (h.pairwise.imp fun hab a ha b hb => ?_)
    obtain ⟨l, hl, rfl⟩ := Option.map_eq_some_iff.mp ha
    obtain ⟨m, hm, rfl⟩ := Option.map_eq_some_iff.mp hb
    rw [← hl, ← hm]
    exact hab
  refine (hsorted.and hclear).imp_of_mem fun ha hb hab => ?_
  have hb := ((h.valid _ (mem_coreItems.mp hb)).ordered _ rfl).first_le
  obtain ⟨hle, hno⟩ := hab
  simp only [clash, PlacedSpan.overlaps, decide_eq_false_iff_not] at hno
  unfold LineEdit.Before
  omega

/-- **The runs of the line edits.** -/
theorem coreRuns_spec (h : ClearSpans content S) : RunsOf (coreItems S) (coreRuns S) :=
  runs_spec (fun _ ha => (h.valid _ (mem_coreItems.mp ha)).ordered _ rfl) (coreItems_pairwise h)

/-! ## 3. The span of a run -/

/-- What a run becomes: its one span, or the span of all its lines. -/
def runSpan (content : Utf16) (run : List (EditSpan × LineEdit)) : Option EditSpan :=
  if 1 < run.length then (lineSpanAt content (runEdit (run.map (·.2)))).toOption
  else run.head?.map (·.1)

variable {run run' : List (EditSpan × LineEdit)}

theorem mem_of_mem_run (h : ClearSpans content S) (hrun : run ∈ coreRuns S)
    {item : EditSpan × LineEdit} (hitem : item ∈ run) : (item.1, some item.2) ∈ S := by
  refine mem_coreItems.mp ?_
  rw [← (coreRuns_spec h).flatten]
  exact List.mem_flatten.mpr ⟨run, hrun, hitem⟩

/-- **A run as a line edit**: its lines are in order and in the content. -/
structure RunLines (content : Utf16) (run : List (EditSpan × LineEdit)) : Prop where
  ne_nil : run ≠ []
  touch : (run.map (·.2)).IsChain LineEdit.Touches
  ordered : ∀ l ∈ run.map (·.2), l.Ordered
  inRange : ∀ l ∈ run.map (·.2), l.InRange (bodyOf content)
  lines : ∀ item ∈ run, SpansLines (bodyOf content) item.2 item.1

theorem coreRuns_lines (h : ClearSpans content S) (hrun : run ∈ coreRuns S) :
    RunLines content run := by
  have hspec := coreRuns_spec h
  have hvalid : ∀ item ∈ run, ValidSpan content (item.1, some item.2) :=
    fun item hitem => h.valid _ (mem_of_mem_run h hrun hitem)
  refine ⟨hspec.ne_nil run hrun, (List.isChain_map _).mpr (hspec.touch run hrun), ?_, ?_, ?_⟩
  · simp only [List.forall_mem_map]
    exact fun item hitem => (hvalid item hitem).ordered _ rfl
  · simp only [List.forall_mem_map]
    exact fun item hitem => (hvalid item hitem).inRange _ rfl
  · exact fun item hitem => (hvalid item hitem).lines _ rfl

theorem RunLines.edit_ordered (h : RunLines content run) :
    (runEdit (run.map (·.2))).Ordered :=
  runEdit_ordered (by simpa using h.ne_nil) h.touch h.ordered

/-- The run of one item has the lines of that item. -/
theorem RunLines.cases (h : RunLines content run) :
    (∃ item, run = [item]) ∨ 1 < run.length := by
  obtain ⟨item, rest, rfl⟩ := List.exists_cons_of_ne_nil h.ne_nil
  cases rest with
  | nil => exact Or.inl ⟨item, rfl⟩
  | cons item' rest => exact Or.inr (by simp)

theorem RunLines.edit_inRange (h : RunLines content run) :
    (runEdit (run.map (·.2))).InRange (bodyOf content) := by
  rcases h.cases with ⟨item, rfl⟩ | hlen
  · exact h.inRange item.2 (by simp)
  · exact Or.inl (runEdit_inRange (by simpa using hlen) h.touch h.ordered h.inRange)

/-- **The span of a run** lies where its lines lie. -/
theorem RunLines.runSpan_eq (h : RunLines content run) :
    ∃ span, runSpan content run = some span ∧
      SpansLines (bodyOf content) (runEdit (run.map (·.2))) span := by
  rcases h.cases with ⟨item, rfl⟩ | hlen
  · obtain ⟨hstop, hstart⟩ := h.lines item (by simp)
    exact ⟨item.1, by simp [runSpan], hstop, hstart⟩
  · obtain ⟨span, hspan⟩ := lineSpanAt_isOk_iff.mpr h.edit_inRange
    exact ⟨span, by simp [runSpan, hlen, hspan, Except.toOption],
      lineSpanAt_eq_ok h.edit_ordered hspan⟩

/-- The first item of a run of several ends before the run does. -/
theorem RunLines.head_last_lt {item : EditSpan × LineEdit} (h : RunLines content (item :: run))
    (hne : run ≠ []) : item.2.last < (runEdit ((item :: run).map (·.2))).last := by
  obtain ⟨second, rest, rfl⟩ := List.exists_cons_of_ne_nil hne
  obtain ⟨front, last, hlast⟩ : ∃ front last, second :: rest = front ++ [last] :=
    (List.eq_nil_or_concat' _).resolve_left hne
  obtain ⟨htouch, hrest⟩ := List.isChain_cons_cons.mp h.touch
  have hedit : (runEdit ((item :: second :: rest).map (·.2))).last = last.2.last := by
    rw [hlast, List.map_cons, List.map_append, ← List.cons_append, List.map_cons, List.map_nil,
      runEdit_last]
  have hmem : last ∈ second :: rest := by rw [hlast]; simp
  have hfirst : second.2.first ≤ last.2.first := first_le_of_chain hrest
    (fun c hc => h.ordered c (List.mem_cons_of_mem _ hc)) (List.mem_map_of_mem hmem)
  have hord := (h.ordered last.2 (List.mem_map_of_mem (List.mem_cons_of_mem _ hmem))).first_le
  have htouch : item.2.last + 1 = second.2.first := htouch
  rw [hedit]
  omega

/-! ## 4. Spans are told apart by where they lie -/

/-- Of two runs with a line between, the first ends where the other begins, or before. -/
theorem SpansLines.of_apart {body : Utf16} {l m : LineEdit} {s t : EditSpan}
    (hl : SpansLines body l s) (hm : SpansLines body m t) (hol : l.Ordered) (hom : m.Ordered)
    (hin : m.InRange body) (hapart : l.Apart m) : s.start < t.start ∧ s.stop ≤ t.start := by
  have h1 := hol.one_le
  have h2 := hol.first_le
  have h3 := hom.first_le
  unfold LineEdit.Apart at hapart
  have hlast : m.last ≤ (lineStarts body).length := by
    rcases hin with hle | ⟨-, hone, -⟩
    · exact hle
    · omega
  have hfrom : boundary body (m.first - 2) ≤ t.start := by
    rcases hm.start with hstart | ⟨-, -, -, hle, -⟩
    · rw [hstart]
      exact boundary_mono (by omega)
    · exact hle
  have hstart : s.start ≤ boundary body (l.first - 1) := by
    rcases hl.start with hstart | ⟨-, -, -, -, hle⟩
    · exact hstart.le
    · exact hle
  have hlt : boundary body (l.first - 1) < boundary body (m.first - 2) :=
    boundary_lt (by omega) (by omega)
  have hstop : s.stop ≤ boundary body (m.first - 2) := by
    rw [hl.stop]
    exact boundary_mono (by omega)
  omega

theorem runEdit_apart (hrun : run ≠ []) (hrun' : run' ≠ [])
    (h : ∀ a ∈ run, ∀ b ∈ run', a.2.Apart b.2) :
    (runEdit (run.map (·.2))).Apart (runEdit (run'.map (·.2))) := by
  obtain ⟨front, last, rfl⟩ := (List.eq_nil_or_concat' run).resolve_left hrun
  obtain ⟨first, rest, rfl⟩ := List.exists_cons_of_ne_nil hrun'
  have hapart := h last (by simp) first (by simp)
  unfold LineEdit.Apart at *
  rwa [List.map_append, List.map_cons, List.map_nil, runEdit_last, List.map_cons, runEdit_first]

/-- **A text and a run do not lie at the same place.** -/
theorem exact_ne_run (h : ClearSpans content S) {e span : EditSpan} (he : (e, none) ∈ S)
    (hrun : run ∈ coreRuns S) (hspan : runSpan content run = some span) :
    ¬ (e.start = span.start ∧ e.stop = span.stop) := by
  rintro ⟨hstart, hstop⟩
  have hlines := coreRuns_lines h hrun
  obtain ⟨item, rest, rfl⟩ := List.exists_cons_of_ne_nil hlines.ne_nil
  have hpos := ((h.valid _ he).exact rfl).1
  have hmem := mem_of_mem_run h hrun List.mem_cons_self
  have hclash : ¬ (e.start = item.1.start ∨
      (e.start < item.1.stop ∧ item.1.start < e.stop)) := by
    intro hclash
    have hsame := h.eq_of_clash he hmem (by simpa [clash, PlacedSpan.overlaps] using hclash)
    simp at hsame
  rcases hlines.cases with ⟨_, hone⟩ | hlen
  · obtain rfl : rest = [] := by simpa using congrArg List.tail hone
    obtain rfl : item.1 = span := by simpa [runSpan] using hspan
    exact hclash (Or.inl hstart)
  · -- the first item begins where the run does, or behind the separator
    obtain ⟨_, hspan', hrunLines⟩ := hlines.runSpan_eq
    obtain rfl := Option.some.inj (hspan.symm.trans hspan')
    have hrest : rest ≠ [] := by
      rintro rfl
      simp at hlen
    have hin := runEdit_inRange (by simpa using hlen) hlines.touch hlines.ordered hlines.inRange
    have hlt := hlines.head_last_lt hrest
    have hitem := hlines.lines item List.mem_cons_self
    have hone := (hlines.ordered item.2 (by simp)).one_le
    have hfirst := (hlines.ordered item.2 (by simp)).first_le
    have hitemStart : item.1.start = boundary (bodyOf content) (item.2.first - 1) := by
      rcases hitem.start with hstart | ⟨-, hend, -⟩
      · exact hstart
      · omega
    have hinside : boundary (bodyOf content) (item.2.first - 1) <
        boundary (bodyOf content) item.2.last := boundary_lt (by omega) (by omega)
    have hmono : boundary (bodyOf content) item.2.last ≤ span.stop := by
      rw [hrunLines.stop]
      exact boundary_mono hlt.le
    have hitemStop := hitem.stop
    have hedit : (runEdit ((item :: rest).map (·.2))).first = item.2.first := rfl
    rcases hrunLines.start with hat | ⟨-, -, -, -, hat⟩ <;> rw [hedit] at hat <;> omega

/-! ## 5. The spans that are applied -/

/-- The spans that are applied: those of texts, and one for each run of lines. -/
def appliedSpans (content : Utf16) (S : List ResolvedSpan) : List EditSpan :=
  (S.filterMap fun r => if r.2.isNone then some r.1 else none) ++
    (coreRuns S).filterMap (runSpan content)

theorem appliedSpans_perm (h : ClearSpans content S) (hperm : S.Perm S') :
    (appliedSpans content S).Perm (appliedSpans content S') := by
  unfold appliedSpans coreRuns
  rw [coreItems_perm h hperm]
  exact (hperm.filterMap _).append_right _

theorem mem_exacts {e : EditSpan} :
    e ∈ S.filterMap (fun r => if r.2.isNone then some r.1 else none) ↔ (e, none) ∈ S := by
  rw [List.mem_filterMap]
  constructor
  · rintro ⟨⟨span, line⟩, hr, hspan⟩
    cases line <;> simp at hspan
    rwa [← hspan]
  · intro h
    exact ⟨_, h, rfl⟩

/-- **Start and end tell the spans apart** that are applied. -/
theorem appliedSpans_pairwise (h : ClearSpans content S) :
    (appliedSpans content S).Pairwise fun a b => ¬ (a.start = b.start ∧ a.stop = b.stop) := by
  refine List.pairwise_append.mpr ⟨?_, ?_, ?_⟩
  · refine List.pairwise_filterMap.mpr (h.pairwise.imp ?_)
    rintro ⟨a, la⟩ ⟨b, lb⟩ hclash e he e' he'
    cases la <;> simp at he
    cases lb <;> simp at he'
    simp [clash, PlacedSpan.overlaps, he, he'] at hclash
    exact fun hsame => hclash.1 hsame.1
  · have hspec := coreRuns_spec h
    refine List.pairwise_filterMap.mpr
      (hspec.apart.imp_of_mem fun hrun hrun' happart s hs t ht => ?_)
    have hlines := coreRuns_lines h hrun
    have hlines' := coreRuns_lines h hrun'
    obtain ⟨_, hspan, hl⟩ := hlines.runSpan_eq
    obtain ⟨_, hspan', hm⟩ := hlines'.runSpan_eq
    obtain rfl := Option.some.inj (hspan.symm.trans hs)
    obtain rfl := Option.some.inj (hspan'.symm.trans ht)
    have hlt := (hl.of_apart hm hlines.edit_ordered hlines'.edit_ordered hlines'.edit_inRange
      (runEdit_apart hlines.ne_nil hlines'.ne_nil happart)).1
    exact fun hsame => hlt.ne hsame.1
  · intro e he span hspan
    obtain ⟨run, hrun, hspan⟩ := List.mem_filterMap.mp hspan
    exact exact_ne_run h (mem_exacts.mp he) hrun hspan

/-! ## 6. Merging the runs -/

/-- One run of several items: its items go, its span comes. -/
theorem coalesce_fold (content : Utf16) {runs : List (List (PlacedSpan × LineEdit))}
    (hok : ∀ run ∈ runs, ∃ merged, mergeRun content run = .ok merged)
    (hindex : ∀ run ∈ runs, ∀ merged, mergeRun content run = .ok merged →
      merged.index ∈ run.map (·.1.index))
    (hpair : runs.Pairwise fun run run' => ∀ a ∈ run, ∀ b ∈ run', a.1.index ≠ b.1.index)
    (spans : List PlacedSpan) (failed : List (ℕ × SpanError)) :
    runs.foldl (coalesceRun content) (spans, failed) =
      (spans.filter (fun a => runs.all fun run => decide (a.index ∉ run.map (·.1.index))) ++
        runs.filterMap fun run => (mergeRun content run).toOption, failed) := by
  induction runs generalizing spans with
  | nil => simp
  | cons run runs ih =>
    obtain ⟨hrun, hrest⟩ := List.pairwise_cons.mp hpair
    obtain ⟨merged, hmerged⟩ := hok run List.mem_cons_self
    have hkept : (runs.all fun run => decide (merged.index ∉ run.map (·.1.index))) = true := by
      rw [List.all_eq_true]
      intro run' hrun'
      rw [decide_eq_true_eq]
      intro hmem
      obtain ⟨b, hb, hsame⟩ := List.mem_map.mp hmem
      obtain ⟨a, ha, hsame'⟩ := List.mem_map.mp (hindex run List.mem_cons_self merged hmerged)
      exact hrun run' hrun' a ha b hb (hsame'.trans hsame.symm)
    have hstep : coalesceRun content (spans, failed) run =
        (spans.filter (fun a => decide (a.index ∉ run.map (·.1.index))) ++ [merged], failed) := by
      simp [coalesceRun, hmerged]
    rw [List.foldl_cons, hstep, ih (fun r hr => hok r (List.mem_cons_of_mem _ hr))
      (fun r hr => hindex r (List.mem_cons_of_mem _ hr)) hrest, List.filter_append,
      List.filter_filter, List.filterMap_cons, hmerged]
    simp only [Except.toOption, List.filter_cons, hkept, if_true, List.filter_nil,
      List.append_assoc, List.singleton_append, List.all_cons]
    simp only [Bool.and_comm]

/-- A list of lists, some of which become one element. -/
theorem perm_flatMap_of_filter {γ δ : Type*} (p : List γ → Bool) (f : List γ → Option δ)
    (g : γ → δ) (runs : List (List γ)) :
    ((runs.filter fun run => !p run).flatten.map g ++ (runs.filter p).filterMap f).Perm
      (runs.flatMap fun run => if p run then (f run).toList else run.map g) := by
  induction runs with
  | nil => simp
  | cons run runs ih =>
    cases hp : p run with
    | false =>
      simp only [List.filter_cons, hp, Bool.not_false, if_true, List.flatten_cons, List.map_append,
        List.flatMap_cons, Bool.false_eq_true, if_false, List.append_assoc]
      exact ih.append_left _
    | true =>
      simp only [List.filter_cons, hp, Bool.not_true, Bool.false_eq_true, if_false, if_true,
        List.flatMap_cons]
      cases hf : f run with
      | none => simpa [hf] using ih
      | some merged =>
        simp only [List.filterMap_cons, hf, Option.toList_some, List.singleton_append]
        exact List.perm_middle.trans (ih.cons _)

/-- The spans that are left, with their places. -/
structure ClearPlaces (content : Utf16) (spans : List PlacedSpan) : Prop where
  clear : ClearSpans content (spans.map PlacedSpan.core)
  places : spans.Pairwise fun a b => a.index < b.index

variable {spans : List PlacedSpan}

theorem ClearPlaces.eq_of_index (h : ClearPlaces content spans) {a b : PlacedSpan}
    (ha : a ∈ spans) (hb : b ∈ spans) (hindex : a.index = b.index) : a = b :=
  eq_of_pairwise (h.places.imp fun h => h.ne) (fun _ _ hab => hab.symm) ha hb (not_not.mpr hindex)

theorem mem_lineItems {item : PlacedSpan × LineEdit} :
    item ∈ lineItems spans ↔ item.1 ∈ spans ∧ item.1.line = some item.2 := by
  unfold lineItems
  rw [(List.mergeSort_perm _ _).mem_iff, List.mem_filterMap]
  constructor
  · rintro ⟨a, ha, hitem⟩
    obtain ⟨l, hl, rfl⟩ := Option.map_eq_some_iff.mp hitem
    exact ⟨ha, hl⟩
  · rintro ⟨ha, hline⟩
    exact ⟨item.1, ha, by rw [hline]; rfl⟩

theorem ClearPlaces.runs_spec (h : ClearPlaces content spans) :
    RunsOf (lineItems spans) (lineRuns spans) := by
  refine PosseClient.runs_spec (fun item hitem => ?_) ?_
  · obtain ⟨ha, hline⟩ := mem_lineItems.mp hitem
    exact (h.clear.valid _ (List.mem_map_of_mem ha)).ordered _ hline
  · have hpair := coreItems_pairwise h.clear
    rw [← lineItems_core, List.pairwise_map] at hpair
    exact hpair

theorem ClearPlaces.items_pairwise (h : ClearPlaces content spans) :
    (lineItems spans).Pairwise fun a b => a.1.index ≠ b.1.index := by
  refine ((List.mergeSort_perm _ _).pairwise_iff fun hab => hab.symm).mpr ?_
  refine List.pairwise_filterMap.mpr (h.places.imp fun hab x hx y hy => ?_)
  obtain ⟨l, -, rfl⟩ := Option.map_eq_some_iff.mp hx
  obtain ⟨m, -, rfl⟩ := Option.map_eq_some_iff.mp hy
  exact hab.ne

theorem runSpan_core {run : List (PlacedSpan × LineEdit)} (hlen : 1 < run.length) :
    runSpan content (run.map (Prod.map PlacedSpan.span id)) =
      (mergeRun content run).toOption.map PlacedSpan.span := by
  have hlines : (run.map (Prod.map PlacedSpan.span id)).map (·.2) = run.map (·.2) := by simp
  rw [runSpan, if_pos (by simpa using hlen), hlines, mergeRun]
  cases lineSpanAt content (runEdit (run.map (·.2))) <;> rfl

theorem ClearPlaces.run_lines (h : ClearPlaces content spans) {run : List (PlacedSpan × LineEdit)}
    (hrun : run ∈ lineRuns spans) : RunLines content (run.map (Prod.map PlacedSpan.span id)) := by
  refine coreRuns_lines h.clear ?_
  rw [← lineRuns_core]
  exact List.mem_map_of_mem hrun

/-- **Merging a run never fails.** -/
theorem ClearPlaces.mergeRun_ok (h : ClearPlaces content spans)
    {run : List (PlacedSpan × LineEdit)} (hrun : run ∈ lineRuns spans) (hlen : 1 < run.length) :
    ∃ merged, mergeRun content run = .ok merged := by
  obtain ⟨span, hspan, -⟩ := (h.run_lines hrun).runSpan_eq
  rw [runSpan_core hlen] at hspan
  obtain ⟨merged, hmerged, -⟩ := Option.map_eq_some_iff.mp hspan
  cases hmerge : mergeRun content run with
  | error error => simp [hmerge, Except.toOption] at hmerged
  | ok merged => exact ⟨merged, rfl⟩

theorem mergeRun_index {run : List (PlacedSpan × LineEdit)} (hne : run ≠ []) {merged : PlacedSpan}
    (h : mergeRun content run = .ok merged) : merged.index ∈ run.map (·.1.index) := by
  obtain ⟨item, rest, rfl⟩ := List.exists_cons_of_ne_nil hne
  unfold mergeRun at h
  cases hspan : lineSpanAt content (runEdit ((item :: rest).map (·.2))) with
  | error error =>
    rw [hspan] at h
    cases h
  | ok span =>
    rw [hspan] at h
    obtain rfl := Except.ok.inj h
    simp

theorem filter_flatten_of_runs {γ : Type*} (p : γ → Bool) (q : List γ → Bool)
    {runs : List (List γ)} (h : ∀ run ∈ runs, ∀ x ∈ run, p x = q run) :
    runs.flatten.filter p = (runs.filter q).flatten := by
  induction runs with
  | nil => rfl
  | cons run runs ih =>
    have hrest := ih fun r hr => h r (List.mem_cons_of_mem _ hr)
    have hrun := h run List.mem_cons_self
    rw [List.flatten_cons, List.filter_append, hrest, List.filter_cons]
    cases hq : q run with
    | true =>
      rw [if_pos rfl, List.flatten_cons, List.filter_eq_self.mpr fun x hx => (hrun x hx).trans hq]
    | false =>
      rw [if_neg (by simp), List.filter_eq_nil_iff.mpr fun x hx => by simp [hrun x hx, hq],
        List.nil_append]

/-- The spans, those of lines by their runs. -/
theorem ClearPlaces.perm_runs (h : ClearPlaces content spans) :
    spans.Perm (spans.filter (fun a => a.line.isNone) ++
      (lineRuns spans).flatten.map (·.1)) := by
  have hlined : (spans.filterMap fun a => a.line.map fun line => (a, line)).map (·.1) =
      spans.filter fun a => !a.line.isNone := by
    rw [List.map_filterMap, ← List.filterMap_eq_filter]
    refine List.filterMap_congr fun a _ => ?_
    cases hline : a.line <;> simp [hline, Option.guard]
  have hitems : ((lineRuns spans).flatten.map (·.1)).Perm
      (spans.filter fun a => !a.line.isNone) := by
    rw [h.runs_spec.flatten, ← hlined]
    exact (List.mergeSort_perm _ _).map _
  exact (List.filter_append_perm _ _).symm.trans (hitems.symm.append_left _)

/-- The span is in no run of several items. -/
def outsideRuns (spans : List PlacedSpan) (a : PlacedSpan) : Bool :=
  ((lineRuns spans).filter fun run => decide (1 < run.length)).all fun run =>
    decide (a.index ∉ run.map (·.1.index))

theorem ClearPlaces.outsideRuns_item (h : ClearPlaces content spans)
    {run : List (PlacedSpan × LineEdit)} (hrun : run ∈ lineRuns spans)
    {item : PlacedSpan × LineEdit} (hitem : item ∈ run) :
    outsideRuns spans item.1 = !decide (1 < run.length) := by
  have hitems := h.items_pairwise
  rw [← h.runs_spec.flatten, List.pairwise_flatten] at hitems
  rw [outsideRuns, Bool.eq_iff_iff, List.all_eq_true]
  simp only [List.mem_filter, decide_eq_true_eq, Bool.not_eq_true', decide_eq_false_iff_not]
  constructor
  · intro hall hlen
    exact hall run ⟨hrun, hlen⟩ (List.mem_map_of_mem hitem)
  · rintro hlen run' ⟨hrun', hlen'⟩ hmem
    obtain ⟨b, hb, hindex⟩ := List.mem_map.mp hmem
    obtain rfl := eq_of_pairwise hitems.2 (fun _ _ hab a ha b hb => (hab b hb a ha).symm) hrun hrun'
      fun hab => hab item hitem b hb hindex.symm
    exact hlen hlen'

theorem ClearPlaces.outsideRuns_exact (h : ClearPlaces content spans) {a : PlacedSpan}
    (ha : a ∈ spans) (hnone : a.line.isNone = true) : outsideRuns spans a = true := by
  simp only [outsideRuns, List.all_eq_true, decide_eq_true_eq]
  intro run hrun hmem
  obtain ⟨item, hitem, hindex⟩ := List.mem_map.mp hmem
  have hline : item ∈ lineItems spans := by
    rw [← h.runs_spec.flatten]
    exact List.mem_flatten.mpr ⟨run, (List.mem_filter.mp hrun).1, hitem⟩
  obtain ⟨hmem, hsome⟩ := mem_lineItems.mp hline
  obtain rfl := h.eq_of_index hmem ha hindex
  simp [hsome] at hnone

/-- The spans that no merging takes away. -/
theorem ClearPlaces.perm_outsideRuns (h : ClearPlaces content spans) :
    (spans.filter (outsideRuns spans)).Perm (spans.filter (fun a => a.line.isNone) ++
      ((lineRuns spans).filter fun run => !decide (1 < run.length)).flatten.map (·.1)) := by
  have hexact : (spans.filter fun a => a.line.isNone).filter (outsideRuns spans) =
      spans.filter fun a => a.line.isNone :=
    List.filter_eq_self.mpr fun a ha =>
      h.outsideRuns_exact (List.mem_filter.mp ha).1 (List.mem_filter.mp ha).2
  have hlined : (lineRuns spans).flatten.filter (outsideRuns spans ∘ (·.1)) =
      ((lineRuns spans).filter fun run => !decide (1 < run.length)).flatten :=
    filter_flatten_of_runs _ _ fun run hrun item hitem => h.outsideRuns_item hrun hitem
  refine (h.perm_runs.filter _).trans ?_
  rw [List.filter_append, hexact, List.filter_map, hlined]

/-- What becomes of each run. -/
theorem ClearPlaces.flatMap_runs (h : ClearPlaces content spans) :
    ((lineRuns spans).flatMap fun run =>
      if decide (1 < run.length) then ((mergeRun content run).toOption.map PlacedSpan.span).toList
      else run.map (·.1.span)) =
      (coreRuns (spans.map PlacedSpan.core)).filterMap (runSpan content) := by
  rw [← lineRuns_core, List.filterMap_map, List.filterMap_eq_flatMap_toList]
  refine List.flatMap_congr fun run hrun => ?_
  rcases (h.run_lines hrun).cases with ⟨item, hone⟩ | hlen
  · obtain ⟨item', rfl⟩ : ∃ item', run = [item'] := by
      cases run with
      | nil => simp at hone
      | cons item' rest => exact ⟨item', by simpa using congrArg List.tail hone⟩
    simp [runSpan]
  · have hlen : 1 < run.length := by simpa using hlen
    rw [if_pos (by simpa using hlen), Function.comp_apply, runSpan_core hlen]

theorem map_span_exacts (spans : List PlacedSpan) :
    (spans.filter fun a => a.line.isNone).map PlacedSpan.span =
      (spans.map PlacedSpan.core).filterMap fun r => if r.2.isNone then some r.1 else none := by
  rw [List.filterMap_map, ← List.filterMap_eq_filter, List.map_filterMap]
  refine List.filterMap_congr fun a _ => ?_
  cases hline : a.line <;> simp [hline, Option.guard, PlacedSpan.core]

/-- **The spans that are applied**, after the runs have been merged. -/
theorem coalesce_spans (h : ClearPlaces content spans) :
    ((coalesce content spans).1.map PlacedSpan.span).Perm
      (appliedSpans content (spans.map PlacedSpan.core)) ∧ (coalesce content spans).2 = [] := by
  have hspec := h.runs_spec
  have hitems := h.items_pairwise
  rw [← hspec.flatten, List.pairwise_flatten] at hitems
  have hsub : ((lineRuns spans).filter fun run => decide (1 < run.length)).Sublist
      (lineRuns spans) := List.filter_sublist
  have hfold := coalesce_fold content
    (fun run hrun => h.mergeRun_ok (hsub.subset hrun) (by simpa using (List.mem_filter.mp hrun).2))
    (fun run hrun merged => mergeRun_index (hspec.ne_nil run (hsub.subset hrun)))
    (hitems.2.sublist hsub) spans []
  unfold coalesce
  rw [hfold]
  refine ⟨?_, rfl⟩
  have hkept := (h.perm_outsideRuns.map PlacedSpan.span).append_right
    ((((lineRuns spans).filter fun run => decide (1 < run.length)).filterMap fun run =>
      (mergeRun content run).toOption).map PlacedSpan.span)
  have hmerge := perm_flatMap_of_filter (fun run => decide (1 < run.length))
    (fun run => (mergeRun content run).toOption.map PlacedSpan.span)
    (fun item : PlacedSpan × LineEdit => item.1.span) (lineRuns spans)
  unfold appliedSpans
  rw [← h.flatMap_runs, ← map_span_exacts, List.map_append]
  refine hkept.trans ?_
  rw [List.map_append, List.append_assoc, List.map_map, List.map_filterMap]
  exact hmerge.append_left _

/-! ## 7. The batch in another order -/

variable {edits edits' : List EditItem}

theorem survivors_placedSpans : (survivors (placedSpans content edits)).map PlacedSpan.core =
    clearSpans (resolvedSpans content edits) := by
  rw [← placedSpans_core]
  refine survivors_core placedSpans_pairwise fun a ha => ?_
  have hmem : a.core ∈ resolvedSpans content edits := by
    rw [← placedSpans_core]
    exact List.mem_map_of_mem ha
  exact (resolvedSpans_valid _ hmem).clash_self

theorem clearSpans_resolved : ClearSpans content (clearSpans (resolvedSpans content edits)) :=
  ⟨fun r hr => resolvedSpans_valid r (mem_of_mem_clearSpans hr),
    clearSpans_pairwise fun r hr => (resolvedSpans_valid r hr).clash_self⟩

theorem survivors_clear : ClearPlaces content (survivors (placedSpans content edits)) :=
  ⟨survivors_placedSpans ▸ clearSpans_resolved, placedSpans_pairwise.sublist List.filter_sublist⟩

/-- The edit is applied: it resolves, and its span is the only one that it overlaps. -/
def editApplied (content : Utf16) (edits : List EditItem) (item : EditItem) : Bool :=
  match resolveEdit content item with
  | .error _ => false
  | .ok r => decide ((resolvedSpans content edits).countP (clash r) = 1)

theorem editApplied_perm (h : edits.Perm edits') :
    editApplied content edits = editApplied content edits' := by
  funext item
  unfold editApplied
  cases resolveEdit content item with
  | error error => rfl
  | ok r =>
    have hcount := (h.filterMap fun item => (resolveEdit content item).toOption).countP_eq (clash r)
    exact congrArg (fun n => decide (n = 1)) hcount

/-- **Which edits are applied**, at their places. -/
theorem batchResults_isNone : (batchResults content edits).map Option.isNone =
    edits.map (editApplied content edits) := by
  unfold batchResults
  dsimp only
  rw [(coalesce_spans survivors_clear).2, List.map_map]
  refine (List.map_congr_left (g := editApplied content edits ∘ Prod.fst) ?_).trans ?_
  · rintro ⟨item, index⟩ hitem
    rw [Function.comp_apply, Function.comp_apply, editApplied]
    cases hresolve : resolveEdit content item with
    | error error => rfl
    | ok r =>
      have hmem : (⟨r.1, index, r.2⟩ : PlacedSpan) ∈ placedSpans content edits :=
        List.mem_filterMap.mpr ⟨(item, index), hitem, by simp [hresolve]⟩
      have hcore : r ∈ resolvedSpans content edits :=
        List.mem_filterMap.mpr ⟨item, (List.mem_zipIdx' hitem).2 ▸ List.getElem_mem _, by
          simp [hresolve, Except.toOption]⟩
      have hiff := rivals_eq_nil_iff placedSpans_pairwise hmem
        (resolvedSpans_valid r hcore).clash_self
      rw [placedSpans_core] at hiff
      dsimp only
      rw [List.lookup_nil]
      cases hrivals : rivals (placedSpans content edits) ⟨r.1, index, r.2⟩ with
      | nil => exact (decide_eq_true (hiff.mp hrivals)).symm
      | cons other others =>
        refine (decide_eq_false fun hone => ?_).symm
        rw [hiff.mpr hone] at hrivals
        cases hrivals
  · rw [← List.map_map, List.zipIdx_map_fst]

theorem applySpans_eq (content : Utf16) (spans : List PlacedSpan) :
    applySpans content spans = ((spans.map PlacedSpan.span).mergeSort fun a b =>
      decide (toLex (a.start, a.stop) ≤ toLex (b.start, b.stop))).reverse.foldl applySpan
        content := by
  have hsort := @List.map_mergeSort _ _
    (fun a b : PlacedSpan =>
      decide (toLex (a.span.start, a.span.stop) ≤ toLex (b.span.start, b.span.stop)))
    (fun a b : EditSpan => decide (toLex (a.start, a.stop) ≤ toLex (b.start, b.stop)))
    PlacedSpan.span spans fun _ _ _ _ => rfl
  rw [← hsort, ← List.map_reverse, List.foldl_map]
  rfl

/-- The spans of a batch, by their places in the content. -/
def sortedSpans (content : Utf16) (edits : List EditItem) : List EditSpan :=
  (appliedSpans content (clearSpans (resolvedSpans content edits))).mergeSort fun a b =>
    decide (toLex (a.start, a.stop) ≤ toLex (b.start, b.stop))

theorem key_injective {spans : List EditSpan}
    (h : spans.Pairwise fun a b => ¬ (a.start = b.start ∧ a.stop = b.stop)) :
    ∀ a ∈ spans, ∀ b ∈ spans, toLex (a.start, a.stop) = toLex (b.start, b.stop) → a = b := by
  intro a ha b hb hkey
  have hsame := toLex.injective hkey
  exact eq_of_pairwise h (fun a b hab hba => hab ⟨hba.1.symm, hba.2.symm⟩) ha hb
    (not_not.mpr (by simpa using hsame))

/-- **What is applied**, in one order. -/
theorem applySpans_coalesce (content : Utf16) (edits : List EditItem) :
    applySpans content (coalesce content (survivors (placedSpans content edits))).1 =
      (sortedSpans content edits).reverse.foldl applySpan content := by
  have hclear : ClearSpans content (clearSpans (resolvedSpans content edits)) := clearSpans_resolved
  have hplaces : ClearPlaces content (survivors (placedSpans content edits)) := survivors_clear
  have hperm := (coalesce_spans hplaces).1
  rw [survivors_placedSpans] at hperm
  have hkey := key_injective (appliedSpans_pairwise hclear)
  rw [applySpans_eq, sortedSpans]
  refine congrArg (fun spans => (List.reverse spans).foldl applySpan content) ?_
  exact (mergeSort_eq_of_perm (by simp) hkey hperm.symm).symm

theorem zip_map_self (f : α → β) (l : List α) : l.zip (l.map f) = l.map fun a => (a, f a) := by
  simpa using @List.zip_map' _ _ _ id f l

/-- The edit that deletes one line. -/
def deleteLine (line : ℕ) : EditItem :=
  .object ["replaceLines"] none none
    (some ⟨["start", "end", "content"], some line, some line, some []⟩)

/-- **The order of a batch does not matter**: another order of the edits gives the same content, and
the same edits are applied. -/
theorem applyBatchEdits_perm (h : edits.Perm edits') (hne : edits ≠ []) :
    ∃ o o', applyBatchEdits content edits = .ok o ∧ applyBatchEdits content edits' = .ok o' ∧
      o.content.toOption = o'.content.toOption ∧ o.editCount = o'.editCount ∧
      o.failed = o'.failed ∧
      (edits.zip (o.results.map Option.isNone)).Perm
        (edits'.zip (o'.results.map Option.isNone)) := by
  have hne' : edits' ≠ [] := fun hnil => hne (by simpa [hnil] using h)
  have hspans : sortedSpans content edits = sortedSpans content edits' := by
    have hclear : ClearSpans content (clearSpans (resolvedSpans content edits)) :=
      clearSpans_resolved
    exact mergeSort_eq_of_perm (by simp) (key_injective (appliedSpans_pairwise hclear))
      (appliedSpans_perm hclear (clearSpans_perm (h.filterMap _)))
  have hcount : (batchResults content edits).countP Option.isNone =
      (batchResults content edits').countP Option.isNone := by
    have hflags : ∀ edits : List EditItem, (batchResults content edits).countP Option.isNone =
        edits.countP (editApplied content edits) := by
      intro edits
      rw [← Function.id_comp Option.isNone, ← List.countP_map, batchResults_isNone, List.countP_map]
      rfl
    rw [hflags, hflags, ← editApplied_perm h]
    exact h.countP_eq _
  have hlen := h.length_eq
  refine ⟨_, _, if_neg hne, if_neg hne', ?_, hcount, ?_, ?_⟩
  · dsimp only
    rw [applySpans_coalesce, applySpans_coalesce, hspans, hcount]
    split_ifs <;> rfl
  · dsimp only
    rw [hcount, hlen]
  · dsimp only
    rw [batchResults_isNone, batchResults_isNone, ← editApplied_perm h, zip_map_self, zip_map_self]
    exact h.map _

/-- Two lines that touch, deleted, the second one first. -/
theorem applyBatchEdits_perm_two :
    ∃ o o', applyBatchEdits (units "a\nb") [deleteLine 1, deleteLine 2] = .ok o ∧
      applyBatchEdits (units "a\nb") [deleteLine 2, deleteLine 1] = .ok o' ∧
      o.content.toOption = o'.content.toOption ∧ o.editCount = o'.editCount ∧
      o.failed = o'.failed ∧
      ([deleteLine 1, deleteLine 2].zip (o.results.map Option.isNone)).Perm
        ([deleteLine 2, deleteLine 1].zip (o'.results.map Option.isNone)) :=
  applyBatchEdits_perm (List.Perm.swap _ _ _) (by simp)

end PosseClient
