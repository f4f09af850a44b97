/-
# The spans of a batch

The spans that the edits of a batch resolve to, and those of them that no other one overlaps.  Which
spans are left depends on the spans alone, not on where their edits stand in the batch.

* `resolvedSpans_valid`: a span is of a text that is not empty, or of lines of the content.
* `survivors_core`: a span is left exactly where it is the only one that it overlaps.
* `clearSpans_pairwise`: what is left does not overlap.
-/
import PosseClient.Toolkit.ExactSpans
import PosseClient.Toolkit.LineRuns

namespace PosseClient

open Json KeySort

variable {content : Utf16} {edits : List EditItem} {spans : List PlacedSpan} {a b : PlacedSpan}

/-! ## 1. Spans of edits that resolve -/

theorem exactVariant_eq_ok {oldText newText : Utf16} {span : EditSpan} (hne : oldText ≠ [])
    (h : exactVariant content oldText newText = some (.ok span)) :
    span.start < span.stop ∧ span.stop ≤ content.length := by
  unfold exactVariant at h
  obtain ⟨position, hindex, hspan⟩ := Option.map_eq_some_iff.mp h
  split_ifs at hspan
  obtain rfl := Except.ok.inj hspan
  obtain ⟨-, hoccurs, -⟩ := (Occurrences.indexOf_eq_some_iff hne).mp hindex
  have hpos := List.length_pos_of_ne_nil hne
  exact ⟨by dsimp only; omega, hoccurs.le_length hne⟩

theorem exactSpan_eq_ok {find replace : Option Utf16} {span : EditSpan}
    (h : exactSpan content find replace = .ok span) :
    span.start < span.stop ∧ span.stop ≤ content.length := by
  cases find with
  | none => cases h
  | some find =>
    cases replace with
    | none => cases h
    | some replace =>
      by_cases hne : find = []
      · simp [exactSpan, hne] at h
      · rw [exactSpan_eq hne] at h
        cases hvariant : exactVariant content (triedVariant content find replace).1
            (triedVariant content find replace).2 with
        | none => simp [hvariant] at h
        | some result =>
          obtain rfl : result = .ok span := by simpa [hvariant] using h
          exact exactVariant_eq_ok (triedVariant_ne_nil hne) hvariant

/-- A span with the lines of a line edit. -/
abbrev ResolvedSpan := EditSpan × Option LineEdit

/-- **A span of one edit**: of a text that is not empty, or of the lines of a line edit. -/
structure ValidSpan (content : Utf16) (a : ResolvedSpan) : Prop where
  exact : a.2 = none → a.1.start < a.1.stop ∧ a.1.stop ≤ content.length
  ordered : ∀ l, a.2 = some l → l.Ordered
  inRange : ∀ l, a.2 = some l → l.InRange (bodyOf content)
  lines : ∀ l, a.2 = some l → SpansLines (bodyOf content) l a.1

theorem checkLines_ordered {source : Option ReplaceLines} {edit : LineEdit}
    (h : checkLines source = .ok edit) : edit.Ordered := by
  unfold checkLines at h
  split at h
  case h_1 => cases h
  case h_2 source =>
    split_ifs at h
    split at h
    case h_1 => cases h
    case h_3 => cases h
    case h_2 first last _ _ _ =>
      split_ifs at h with hbad
      obtain rfl := Except.ok.inj h
      exact ⟨by simp; omega, by simp; omega⟩

theorem resolveEdit_valid {item : EditItem} {r : ResolvedSpan}
    (h : resolveEdit content item = .ok r) : ValidSpan content r := by
  cases item with
  | invalid => cases h
  | object keys find replace replaceLines =>
    unfold resolveEdit at h
    dsimp only at h
    split at h
    case h_1 => cases h
    case h_2 =>
      split_ifs at h with hmode hline
      · split at h
        case h_1 => cases h
        case h_2 edit hedit =>
          split at h
          case h_1 => cases h
          case h_2 span hspan =>
            obtain rfl := Except.ok.inj h
            have ho := checkLines_ordered hedit
            refine ⟨fun hnone => by simp at hnone, ?_, ?_, ?_⟩ <;> rintro l hl <;>
              obtain rfl := Option.some.inj hl
            · exact ho
            · exact lineSpanAt_isOk_iff.mp ⟨span, hspan⟩
            · exact lineSpanAt_eq_ok ho hspan
      · split at h
        case h_1 => cases h
        case h_2 span hspan =>
          obtain rfl := Except.ok.inj h
          exact ⟨fun _ => exactSpan_eq_ok hspan, by simp, by simp, by simp⟩

/-- The spans of a batch, without the places of their edits. -/
def resolvedSpans (content : Utf16) (edits : List EditItem) : List ResolvedSpan :=
  edits.filterMap fun item => (resolveEdit content item).toOption

theorem resolvedSpans_valid : ∀ r ∈ resolvedSpans content edits, ValidSpan content r := by
  intro r hr
  obtain ⟨item, -, hitem⟩ := List.mem_filterMap.mp hr
  cases hresolve : resolveEdit content item with
  | error error => simp [hresolve, Except.toOption] at hitem
  | ok span =>
    obtain rfl : span = r := by simpa [hresolve, Except.toOption] using hitem
    exact resolveEdit_valid hresolve

/-! ## 2. The places of the edits -/

/-- The span without its place. -/
def PlacedSpan.core (a : PlacedSpan) : ResolvedSpan := (a.span, a.line)

theorem placedSpans_cons_aux (content : Utf16) (edits : List EditItem) (k : ℕ) :
    let spans := (edits.zipIdx k).filterMap fun (item, index) =>
      match resolveEdit content item with
      | .ok (span, line) => some (⟨span, index, line⟩ : PlacedSpan)
      | .error _ => none
    spans.map PlacedSpan.core = resolvedSpans content edits ∧
      spans.Pairwise (fun a b => a.index < b.index) ∧ ∀ a ∈ spans, k ≤ a.index := by
  induction edits generalizing k with
  | nil => simp [resolvedSpans]
  | cons item edits ih =>
    obtain ⟨hcore, hpair, hle⟩ := ih (k + 1)
    cases hresolve : resolveEdit content item with
    | error error =>
      simp only [List.zipIdx_cons, List.filterMap_cons, hresolve]
      refine ⟨?_, hpair, fun a ha => (Nat.le_succ k).trans (hle a ha)⟩
      rw [hcore]
      simp [resolvedSpans, hresolve, Except.toOption]
    | ok span =>
      simp only [List.zipIdx_cons, List.filterMap_cons, hresolve]
      refine ⟨?_, List.pairwise_cons.mpr ⟨fun a ha => hle a ha, hpair⟩, ?_⟩
      · rw [List.map_cons, hcore]
        simp [resolvedSpans, hresolve, Except.toOption, PlacedSpan.core]
      · intro a ha
        rcases List.mem_cons.mp ha with rfl | ha
        · exact le_rfl
        · exact (Nat.le_succ k).trans (hle a ha)

theorem placedSpans_core : (placedSpans content edits).map PlacedSpan.core =
    resolvedSpans content edits := (placedSpans_cons_aux content edits 0).1

theorem placedSpans_pairwise :
    (placedSpans content edits).Pairwise fun a b => a.index < b.index :=
  (placedSpans_cons_aux content edits 0).2.1

/-! ## 3. Overlaps -/

/-- `overlaps`, of spans without their places. -/
def clash (a b : ResolvedSpan) : Bool := PlacedSpan.overlaps ⟨a.1, 0, a.2⟩ ⟨b.1, 0, b.2⟩

theorem overlaps_eq_clash : a.overlaps b = clash a.core b.core := rfl

theorem clash_comm (a b : ResolvedSpan) : clash a b = clash b a := by
  rcases a with ⟨a, la⟩
  rcases b with ⟨b, lb⟩
  unfold clash PlacedSpan.overlaps
  cases la <;> cases lb <;> simp only [decide_eq_decide] <;>
    constructor <;> intro h <;> omega

theorem ValidSpan.clash_self {r : ResolvedSpan} (h : ValidSpan content r) : clash r r = true := by
  rcases r with ⟨r, line⟩
  cases line with
  | none => simp [clash, PlacedSpan.overlaps]
  | some l =>
    have := (h.ordered l rfl).first_le
    simpa [clash, PlacedSpan.overlaps] using this

/-- **A span has no rival** exactly where it is the only one that it overlaps. -/
theorem rivals_eq_nil_iff (hpair : spans.Pairwise fun a b => a.index < b.index) (ha : a ∈ spans)
    (hself : clash a.core a.core = true) :
    rivals spans a = [] ↔ (spans.map PlacedSpan.core).countP (clash a.core) = 1 := by
  obtain ⟨l, l', rfl⟩ := List.append_of_mem ha
  obtain ⟨-, hright, hleft⟩ := List.pairwise_append.mp hpair
  have hright := (List.pairwise_cons.mp hright).1
  have hl : ∀ b ∈ l, b.index ≠ a.index := fun b hb => (hleft b hb a List.mem_cons_self).ne
  have hl' : ∀ b ∈ l', b.index ≠ a.index := fun b hb => (hright b hb).ne'
  have hzero : ∀ l : List PlacedSpan, (l.map PlacedSpan.core).countP (clash a.core) = 0 ↔
      ∀ b ∈ l, a.overlaps b = false := by
    intro l
    rw [List.countP_eq_zero]
    simp [overlaps_eq_clash]
  have hnil : rivals (l ++ a :: l') a = [] ↔
      (∀ b ∈ l, a.overlaps b = false) ∧ ∀ b ∈ l', a.overlaps b = false := by
    unfold rivals
    simp only [List.map_eq_nil_iff, List.filter_eq_nil_iff, List.mem_append, List.mem_cons,
      Bool.and_eq_true, decide_eq_true_eq, not_and, Bool.not_eq_true]
    constructor
    · intro h
      exact ⟨fun b hb => h b (Or.inl hb) (hl b hb),
        fun b hb => h b (Or.inr (Or.inr hb)) (hl' b hb)⟩
    · rintro ⟨h, h'⟩ b (hb | rfl | hb) hne
      · exact h b hb
      · exact absurd rfl hne
      · exact h' b hb
  rw [hnil, ← hzero, ← hzero, List.map_append, List.map_cons, List.countP_append,
    List.countP_cons_of_pos hself]
  omega

/-- The spans that are the only ones they overlap. -/
def clearSpans (spans : List ResolvedSpan) : List ResolvedSpan :=
  spans.filter fun a => decide (spans.countP (clash a) = 1)

/-- **The spans without a conflict**, without their places. -/
theorem survivors_core (hpair : spans.Pairwise fun a b => a.index < b.index)
    (hself : ∀ a ∈ spans, clash a.core a.core = true) :
    (survivors spans).map PlacedSpan.core = clearSpans (spans.map PlacedSpan.core) := by
  unfold survivors clearSpans
  rw [List.filter_map]
  refine congrArg _ (List.filter_congr fun a ha => ?_)
  rw [Function.comp_apply, decide_eq_decide]
  exact rivals_eq_nil_iff hpair ha (hself a ha)

theorem clearSpans_perm {S S' : List ResolvedSpan} (h : S.Perm S') :
    (clearSpans S).Perm (clearSpans S') := by
  have hcount : (fun a => decide (S.countP (clash a) = 1)) =
      fun a => decide (S'.countP (clash a) = 1) := by
    funext a
    rw [h.countP_eq]
  unfold clearSpans
  rw [hcount]
  exact h.filter _

theorem mem_of_mem_clearSpans {S : List ResolvedSpan} {r : ResolvedSpan} (h : r ∈ clearSpans S) :
    r ∈ S := (List.mem_filter.mp h).1

/-- **What is left does not overlap.** -/
theorem clearSpans_pairwise {S : List ResolvedSpan} (hself : ∀ a ∈ S, clash a a = true) :
    (clearSpans S).Pairwise fun a b => clash a b = false := by
  rw [List.pairwise_iff_forall_sublist]
  intro a b hsub
  by_contra hclash
  rw [Bool.not_eq_false] at hclash
  obtain ⟨ha, hone⟩ := List.mem_filter.mp (hsub.subset List.mem_cons_self)
  have hone : S.countP (clash a) = 1 := by simpa using hone
  -- both of them count
  have htwo := (hsub.trans List.filter_sublist).countP_le (p := clash a)
  simp [hself a ha, hclash] at htwo
  omega

end PosseClient
