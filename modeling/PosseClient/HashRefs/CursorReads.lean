/-
# Following the cursors of a payload

The pages that the fetches of `RefPages.lean` deliver, one cursor after the other.

* `RefEntry.measure_le_shrunk`: a view that keeps its text does not get smaller by being shrunk, so that
  the pages of a line range end before `end_offset` where they are shrunk at all.
* `PageAt`, `PagesFrom`: a page is the text its header says, and the pages follow each other.
* **The cursors read a text exactly once**; a line range that fits is one page unless the whole rows of a
  raw source page end inside it.
-/
import PosseClient.HashRefs.RefPages
import PosseClient.Lib.JsonSize

namespace PosseClient

open Json Rows

/-! ## 1. Shrinking makes a header longer -/

section Measure

/-- The header of a view of the same text, shrunk. -/
structure ShrunkPage (page page' : RefPage) : Prop where
  offset : page'.offset = page.offset
  returnedChars : page'.returnedChars = page.returnedChars
  endOffset : page'.endOffset = page.endOffset
  fullSizeChars : page'.fullSizeChars = page.fullSizeChars
  limit : page.limit < 10 ^ 5
  unshrunk : page.originalReturnedChars = none
  shrunk : page'.originalReturnedChars.isSome = true
  next : page.nextOffset = page'.nextOffset ∨ page.nextOffset = none

theorem weight_ofNat {w : ℕ → ℕ} (hw : ∀ u, 48 ≤ u ∧ u ≤ 57 ∨ 97 ≤ u ∧ u ≤ 122 → w u = 1) (n : ℕ) :
    weight w (stringify (ofNat n)) = (natText n).length := by
  rw [ofNat, stringify]
  exact weight_eq_length fun u hu => hw u (Or.inl (natText_units n u hu))

theorem weight_page_le {w : ℕ → ℕ} (hw : ∀ u, 48 ≤ u ∧ u ≤ 57 ∨ 97 ≤ u ∧ u ≤ 122 → w u = 1)
    (hpos : ∀ u, 1 ≤ w u) {page page' : RefPage} (h : ShrunkPage page page') :
    weight w (stringify (.object page.members)) ≤ weight w (stringify (.object page'.members)) := by
  have hword : ∀ s : Utf16, (∀ u ∈ s, 97 ≤ u ∧ u ≤ 122) → weight w s = s.length :=
    fun s hs => weight_eq_length fun u hu => hw u (Or.inr (hs u hu))
  have hnull : weight w (stringify .null) = 4 := hword _ (by decide)
  have htrue : weight w (stringify (.bool true)) = 4 := hword _ (by decide)
  have hfalse : weight w (stringify (.bool false)) = 5 := hword _ (by decide)
  have hbool : ∀ b b' : Bool, weight w (stringify (.bool b)) ≤ weight w (stringify (.bool b')) + 1 := by
    intro b b'
    cases b <;> cases b' <;> simp [htrue, hfalse]
  have hnumber : ∀ n, weight w (stringify (ofNat n)) = (natText n).length := weight_ofNat hw
  have hdigits : ∀ n, 1 ≤ (natText n).length :=
    fun n => List.length_pos_of_ne_nil (natText_ne_nil n)
  have hlimit : (natText page.limit).length ≤ 5 := natText_length_le (by omega) h.limit
  have hnext : weight w (stringify (page.nextOffset.elim .null ofNat)) ≤
      weight w (stringify (page'.nextOffset.elim .null ofNat)) + 3 := by
    rcases h.next with heq | hnone
    · rw [heq]
      omega
    · rw [hnone]
      cases page'.nextOffset with
      | none => simp
      | some n =>
        have hn := hdigits n
        simp only [Option.elim_none, Option.elim_some, hnull, hnumber]
        omega
  obtain ⟨original, horiginal⟩ := Option.isSome_iff_exists.mp h.shrunk
  -- the member `original_returned_chars` is longer than what any other loses
  have hextra : 25 ≤ weight w (quote (units "original_returned_chars")) := by
    have hlength : (quote (units "original_returned_chars")).length = 25 := by decide +kernel
    exact hlength ▸ length_le_weight hpos _
  have hne : ∀ p : RefPage, p.members ≠ [] := fun p => List.cons_ne_nil _ _
  have hsum := weight_object (w := w) (hne page)
  have hsum' := weight_object (w := w) (hne page')
  have hmore := hbool page.hasMore page'.hasMore
  have hlimit' := hdigits page'.limit
  have hle : (page.members.map (memberWeight w)).sum ≤ (page'.members.map (memberWeight w)).sum := by
    simp only [RefPage.members, h.unshrunk, horiginal, h.offset, h.returnedChars, h.endOffset,
      h.fullSizeChars, List.map_append, List.sum_append, List.map_cons, List.sum_cons, List.map_nil,
      List.sum_nil, memberWeight, hnumber, Option.toList_none, Option.toList_some, List.flatMap_cons,
      List.flatMap_nil, List.append_nil]
    omega
  omega

/-- The keys and words of a header. -/
theorem noSurrogates_quote_units {s : String} (h : ∀ u ∈ quote (units s), u < 55296) :
    NoSurrogates (quote (units s)) := noSurrogates_of_lt h

theorem noSurrogates_page (page : RefPage) : NoSurrogates (stringify (.object page.members)) := by
  have hmode := noSurrogates_quote_units (s := "mode") (by decide +kernel)
  have hword := noSurrogates_quote_units (s := "offset") (by decide +kernel)
  have hoffset : NoSurrogates (stringify (.string (units "offset"))) := by
    rw [stringify]
    exact hword
  have hlimit := noSurrogates_quote_units (s := "limit") (by decide +kernel)
  have hreturned := noSurrogates_quote_units (s := "returned_chars") (by decide +kernel)
  have hend := noSurrogates_quote_units (s := "end_offset") (by decide +kernel)
  have hnextKey := noSurrogates_quote_units (s := "next_offset") (by decide +kernel)
  have hmoreKey := noSurrogates_quote_units (s := "has_more") (by decide +kernel)
  have hfull := noSurrogates_quote_units (s := "full_size_chars") (by decide +kernel)
  have horiginal := noSurrogates_quote_units (s := "original_returned_chars") (by decide +kernel)
  have hshrunk := noSurrogates_quote_units (s := "serialized_shrunk") (by decide +kernel)
  have hbool : ∀ b, NoSurrogates (stringify (.bool b)) := by
    intro b
    cases b <;> exact noSurrogates_of_lt (by decide)
  have hnext : NoSurrogates (stringify (page.nextOffset.elim .null ofNat)) := by
    cases page.nextOffset with
    | none => exact noSurrogates_of_lt (by decide)
    | some n => exact noSurrogates_ofNat n
  refine noSurrogates_object fun m hm => ?_
  rw [RefPage.members, List.mem_append, List.mem_append, List.mem_append] at hm
  rcases hm with ((hm | hm) | hm) | hm
  · simp only [List.mem_cons, List.not_mem_nil, or_false] at hm
    rcases hm with rfl | rfl | rfl | rfl
    · exact ⟨hmode, hoffset⟩
    · exact ⟨hword, noSurrogates_ofNat _⟩
    · exact ⟨hlimit, noSurrogates_ofNat _⟩
    · exact ⟨hreturned, noSurrogates_ofNat _⟩
  · obtain ⟨e, -, rfl⟩ := List.mem_map.mp hm
    exact ⟨hend, noSurrogates_ofNat _⟩
  · simp only [List.mem_cons, List.not_mem_nil, or_false] at hm
    rcases hm with rfl | rfl | rfl
    · exact ⟨hnextKey, hnext⟩
    · exact ⟨hmoreKey, hbool _⟩
    · exact ⟨hfull, noSurrogates_ofNat _⟩
  · obtain ⟨n, -, hm⟩ := List.mem_flatMap.mp hm
    simp only [List.mem_cons, List.not_mem_nil, or_false] at hm
    rcases hm with rfl | rfl
    · exact ⟨horiginal, noSurrogates_ofNat _⟩
    · exact ⟨hshrunk, hbool _⟩

theorem stringify_object_ne_nil (members : List (Utf16 × Value)) : stringify (.object members) ≠ [] := by
  simp [stringify]

variable {entry : RefEntry} {view view' : RefView}

theorem length_rendered_le (htext : view'.text = view.text) (h : ShrunkPage view.page view'.page) :
    (entry.rendered view).length ≤ (entry.rendered view').length := by
  have hpage := weight_page_le (w := fun _ => 1) (fun _ _ => rfl) (fun _ => le_rfl) h
  rw [weight_one, weight_one] at hpage
  obtain ⟨left, right, hsplit⟩ := stringifyMembers_between
    (entry.head ++ [(units "text", .string view.text)]) [] (units "page")
  have hrendered : ∀ page : RefPage, (entry.rendered ⟨view.text, page⟩).length =
      left.length + (stringify (.object page.members)).length + right.length + 2 := by
    intro page
    have hmembers := hsplit (.object page.members)
    rw [List.append_assoc] at hmembers
    rw [RefEntry.rendered, stringify]
    simp only [List.singleton_append] at hmembers
    rw [hmembers]
    simp only [List.length_append, List.length_cons, List.length_nil]
    omega
  have hview : view = ⟨view.text, view.page⟩ := rfl
  have hview' : view' = ⟨view.text, view'.page⟩ := by rw [← htext]
  rw [hview, hview', hrendered, hrendered]
  omega

theorem displayChars_le (htext : view'.text = view.text) (h : ShrunkPage view.page view'.page) :
    entry.displayChars view ≤ entry.displayChars view' := by
  unfold RefEntry.displayChars
  rw [htext, h.offset]
  cases entry.lifted view.page.offset view.text with
  | none => exact le_rfl
  | some lifted =>
    obtain ⟨selections, blocks⟩ := lifted
    have hpage : weight (fun u => (escapeUnit u).length) (stringify (.object view.page.members)) ≤
        weight (fun u => (escapeUnit u).length) (stringify (.object view'.page.members)) :=
      weight_page_le (fun u hu => by rw [escapeUnit_of_plain hu]; rfl) one_le_length_escapeUnit h
    obtain ⟨left, right, hsplit⟩ := stringifyMembers_between
      (entry.head ++ [(units "text", .string selections)])
      [(units "evidence_ref", .object [(units "line_semantics", .string (units "source"))]),
        (units "source_blocks_follow", ofNat blocks.length)] (units "page")
    have hheader : ∀ page : RefPage, (escape (entry.displayHeader page selections blocks.length)).length =
        (escape (123 :: left)).length +
          (weight (fun u => (escapeUnit u).length) (stringify (.object page.members)) +
            (escape (right ++ [125])).length) := by
      intro page
      have hmembers := hsplit (.object page.members)
      rw [List.append_assoc, List.singleton_append] at hmembers
      rw [RefEntry.displayHeader, stringify, hmembers,
        ← length_escape_between (noSurrogates_page page) (stringify_object_ne_nil _)]
      simp
    obtain ⟨left', right', hsplit'⟩ := stringifyMembers_between [(units "type", .string (units "text"))]
      [] (units "text")
    have hblock : ∀ s, (stringify (displayBlock s)).length =
        left'.length + (escape s).length + right'.length + 4 := by
      intro s
      have hmembers := hsplit' (.string s)
      rw [List.singleton_append] at hmembers
      rw [displayBlock, stringify, hmembers]
      simp only [stringify, quote, List.length_append, List.length_cons, List.length_nil]
      omega
    have hcontent : ∀ v : Value, ∃ n, ∀ s, (stringify (.object [(units "content", .array
        (displayBlock s :: blocks.map displayBlock))])).length =
          (stringify (displayBlock s)).length + n := by
      intro _
      cases blocks.map displayBlock with
      | nil =>
        refine ⟨(quote (units "content")).length + 5, fun s => ?_⟩
        simp only [stringify, stringifyMembers, stringifyItems, List.length_append, List.length_cons,
          List.length_nil]
        omega
      | cons v rest =>
        refine ⟨(quote (units "content")).length + (stringifyItems (v :: rest)).length + 6, fun s => ?_⟩
        simp only [stringify, stringifyMembers, stringifyItems_cons, List.length_append,
          List.length_cons, List.length_nil]
        omega
    obtain ⟨n, hn⟩ := hcontent .null
    simp only
    rw [hn, hn, hblock, hblock, hheader, hheader]
    omega

/-- Whole rows are cut alike in both. -/
theorem alignSourceContinuationPage_shrunk (htext : view'.text = view.text)
    (h : ShrunkPage view.page view'.page) (hlength : view.text.length < 10 ^ 5)
    (hle : alignedLength entry.payload view ≤ view.text.length) :
    (alignSourceContinuationPage entry view').text = (alignSourceContinuationPage entry view).text ∧
      ShrunkPage (alignSourceContinuationPage entry view).page
        (alignSourceContinuationPage entry view').page := by
  have haligned : alignedLength entry.payload view' = alignedLength entry.payload view := by
    unfold alignedLength
    rw [htext, h.offset]
  unfold alignSourceContinuationPage
  simp only [htext, h.offset, haligned]
  split_ifs
  · exact ⟨htext, h⟩
  · exact ⟨htext, h⟩
  · exact ⟨htext, h⟩
  · exact ⟨htext, h⟩
  · exact ⟨rfl, rfl, rfl, h.endOffset, h.fullSizeChars, lt_of_le_of_lt hle hlength, h.unshrunk,
      h.shrunk, Or.inl rfl⟩

/-- **A view that keeps its text gets no smaller** by being shrunk. -/
theorem RefEntry.measure_le_shrunk (htext : view'.text = view.text)
    (h : ShrunkPage view.page view'.page) (hlength : view.text.length < 10 ^ 5)
    (hle : alignedLength entry.payload view ≤ view.text.length) :
    entry.measure view ≤ entry.measure view' := by
  have hrendered : (entry.rendered view).length ≤ (entry.rendered view').length :=
    length_rendered_le htext h
  obtain ⟨haligned, hpage⟩ := alignSourceContinuationPage_shrunk htext h hlength hle
  have hdisplay : entry.displayChars (alignSourceContinuationPage entry view) ≤
      entry.displayChars (alignSourceContinuationPage entry view') := displayChars_le haligned hpage
  unfold RefEntry.measure
  split
  · omega
  · exact hrendered

end Measure

/-! ## 2. Whole rows -/

section Rows

theorem completeLength_le (rows : List Utf16) : completeLength rows ≤ rows.flatten.length := by
  induction rows with
  | nil => simp [completeLength]
  | cons row rows ih =>
    rw [List.flatten_cons, List.length_append]
    unfold completeLength
    split <;> omega

theorem completeLength_sourceRows_le (text : Utf16) :
    completeLength (sourceRows text) ≤ text.length := by
  have hle := completeLength_le (sourceRows text)
  rwa [sourceRows, rowsBy_flatten] at hle

theorem alignedLength_bounds (full : Utf16) (view : RefView) :
    alignedLength full view ≤ view.text.length ∧ (view.text ≠ [] → 0 < alignedLength full view) := by
  unfold alignedLength
  simp only
  generalize hn : (if 1 < view.text.length ∧
    cutsPair full (view.page.offset + view.text.length) = true then view.text.length - 1
    else view.text.length) = n
  have hbounds : n ≤ view.text.length ∧ (view.text ≠ [] → 0 < n) := by
    rw [← hn]
    refine ⟨by split <;> omega, fun hne => ?_⟩
    have hpos := List.length_pos_of_ne_nil hne
    split <;> omega
  have hcomplete : completeLength (sourceRows (view.text.take n)) ≤ view.text.length := by
    refine (completeLength_sourceRows_le _).trans ?_
    rw [List.length_take]
    omega
  split
  · exact ⟨hcomplete, fun _ => by assumption⟩
  · exact hbounds

end Rows

/-! ## 3. One page -/

/-- **A page is the text its header says**: of the payload, from `start` on, before `stop`. -/
structure PageAt (payload : Utf16) (start stop : ℕ) (view : RefView) : Prop where
  nonempty : view.text ≠ []
  text : view.text = slice payload start (start + view.text.length)
  within : start + view.text.length ≤ stop
  offset : view.page.offset = start
  returnedChars : view.page.returnedChars = view.text.length
  nextOffset : view.page.nextOffset =
    if start + view.text.length < stop then some (start + view.text.length) else none
  hasMore : view.page.hasMore = decide (start + view.text.length < stop)

/-- What a fetch delivers, with what its header says of the payload. -/
structure Delivers (entry : RefEntry) (args : FetchArgs) (view : RefView) : Prop where
  page : PageAt entry.payload args.offset (args.stop entry.payload) view
  endOffset : view.page.endOffset = args.endOffset.map fun _ => args.stop entry.payload
  fullSizeChars : view.page.fullSizeChars = entry.payload.length

section Page

variable {entry : RefEntry} {args : FetchArgs} {view : RefView}

theorem length_slice {text : Utf16} {start stop : ℕ} (hstart : start ≤ stop)
    (hstop : stop ≤ text.length) : (slice text start stop).length = stop - start := by
  rw [slice, List.length_take, List.length_drop]
  omega

theorem take_slice {text : Utf16} {start stop n : ℕ} (h : start + n ≤ stop) :
    (slice text start stop).take n = slice text start (start + n) := by
  rw [slice, slice, List.take_take]
  congr 1
  omega

theorem slice_append {text : Utf16} {start middle stop : ℕ} (h : start ≤ middle)
    (h' : middle ≤ stop) : slice text start middle ++ slice text middle stop = slice text start stop := by
  have hdrop : text.drop middle = (text.drop start).drop (middle - start) := by
    rw [List.drop_drop]
    congr 1
    omega
  have hstop : stop - start = (middle - start) + (stop - middle) := by omega
  rw [slice, slice, slice, hdrop, hstop, List.take_add]

theorem FetchArgs.limitChars_bounds (args : FetchArgs) :
    0 < args.limitChars ∧ args.limitChars ≤ 60000 := by
  unfold FetchArgs.limitChars positiveInt fetchRefDefaultLimitChars fetchRefMaxLimitChars
  simp only
  split <;> omega

theorem positiveInt_zero_none (n : ℕ) : positiveInt n 0 none = n := by
  unfold positiveInt
  simp only
  split <;> omega

theorem materializeHashRefView_delivers (hstart : args.offset < args.stop entry.payload)
    (hstop : args.stop entry.payload ≤ entry.payload.length) :
    Delivers entry args (materializeHashRefView entry.payload args) := by
  obtain ⟨hlimit, -⟩ := args.limitChars_bounds
  have htext : (materializeHashRefView entry.payload args).text =
      slice entry.payload args.offset
        (min (args.stop entry.payload) (args.offset + args.limitChars)) := by
    simp only [materializeHashRefView, positiveInt_zero_none]
  have hlength : (materializeHashRefView entry.payload args).text.length =
      min (args.stop entry.payload) (args.offset + args.limitChars) - args.offset := by
    rw [htext, length_slice (by omega) (by omega)]
  refine ⟨⟨?_, ?_, by omega, positiveInt_zero_none _, rfl, ?_, ?_⟩, rfl, rfl⟩
  · refine List.ne_nil_of_length_pos ?_
    omega
  · rw [hlength, htext]
    congr 1
    omega
  · simp only [materializeHashRefView, positiveInt_zero_none]
  · simp only [materializeHashRefView, positiveInt_zero_none]

theorem Delivers.take (h : Delivers entry args view) {view' : RefView} {n : ℕ} (hn : 0 < n)
    (hle : n ≤ view.text.length) (htext : view'.text = view.text.take n)
    (hoffset : view'.page.offset = view.page.offset) (hreturned : view'.page.returnedChars = n)
    (hend : view'.page.endOffset = view.page.endOffset)
    (hfull : view'.page.fullSizeChars = view.page.fullSizeChars)
    (hnext : view'.page.nextOffset =
      if args.offset + n < args.stop entry.payload then some (args.offset + n) else none)
    (hmore : view'.page.hasMore = decide (args.offset + n < args.stop entry.payload)) :
    Delivers entry args view' := by
  have hlength : view'.text.length = n := by
    rw [htext, List.length_take]
    omega
  have hwithin := h.page.within
  refine ⟨⟨?_, ?_, by omega, hoffset.trans h.page.offset, by rw [hreturned, hlength], ?_, ?_⟩,
    hend.trans h.endOffset, hfull.trans h.fullSizeChars⟩
  · exact List.ne_nil_of_length_pos (by omega)
  · rw [hlength, htext, h.page.text, take_slice (by omega)]
  · rw [hlength]
    exact hnext
  · rw [hlength]
    exact hmore

theorem alignSourceContinuationPage_delivers (h : Delivers entry args view) :
    Delivers entry args (alignSourceContinuationPage entry view) := by
  unfold alignSourceContinuationPage
  simp only
  split_ifs with hraw hfull hbegins hlength
  · exact h
  · exact h
  · exact h
  · exact h
  · have hle := (alignedLength_bounds entry.payload view).1
    have hlt : alignedLength entry.payload view < view.text.length := lt_of_le_of_ne hle hlength
    have hwithin := h.page.within
    have hoffset := h.page.offset
    refine h.take ((alignedLength_bounds entry.payload view).2 h.page.nonempty) hle rfl rfl rfl rfl rfl ?_ ?_
    · rw [if_pos (by omega), hoffset]
    · exact (decide_eq_true (by omega)).symm

theorem Delivers.shrunk (h : Delivers entry args view) {n : ℕ} (hn : 0 < n)
    (hlt : n < view.text.length) (hstop : args.stop entry.payload ≤ entry.payload.length) :
    Delivers entry args (view.shrunk n) := by
  have hwithin := h.page.within
  have hoffset := h.page.offset
  have hfull := h.fullSizeChars
  have hlength : (view.text.take (max 1 n)).length = n := by
    rw [List.length_take]
    omega
  have hmax : max 1 n = n := by omega
  have hiff : args.offset + n < max (view.page.offset + view.text.length) view.page.fullSizeChars ↔
      args.offset + n < args.stop entry.payload := by
    omega
  refine h.take hn hlt.le ?_ rfl ?_ rfl rfl ?_ ?_
  · simp only [RefView.shrunk, hmax]
  · simp only [RefView.shrunk, hlength]
  · simp only [RefView.shrunk, hlength, hoffset]
    rw [← hoffset] at hiff ⊢
    simp only [hiff]
  · simp only [RefView.shrunk, hlength, hoffset]
    rw [← hoffset] at hiff ⊢
    simp only [hiff]

theorem searchLongest_spec {fits : ℕ → Bool} {low high : ℤ} {best : Option ℕ} {n : ℕ}
    (hlow : 0 ≤ low) (h : searchLongest fits low high best = some n) :
    best = some n ∨ (low ≤ n ∧ (n : ℤ) ≤ high ∧ fits n = true) := by
  fun_induction searchLongest fits low high best with
  | case1 low high best hle middle hfits ih =>
    rcases ih (by omega) h with hbest | ⟨hge, hle', hn⟩
    · obtain rfl := Option.some.inj hbest
      exact Or.inr ⟨by omega, by omega, hfits⟩
    · exact Or.inr ⟨by omega, hle', hn⟩
  | case2 low high best hle middle hfits ih =>
    rcases ih hlow h with hbest | ⟨hge, hle', hn⟩
    · exact Or.inl hbest
    · exact Or.inr ⟨hge, by omega, hn⟩
  | case3 low high best hle => exact Or.inl h

/-- The header of a materialized view, and that of the view shrunk to all of its text. -/
theorem shrunkPage_full (h : Delivers entry args view) (hlimit : view.page.limit < 10 ^ 5)
    (hunshrunk : view.page.originalReturnedChars = none)
    (hstop : args.stop entry.payload ≤ entry.payload.length) :
    (view.shrunk view.text.length).text = view.text ∧
      ShrunkPage view.page (view.shrunk view.text.length).page := by
  have hpos := List.length_pos_of_ne_nil h.page.nonempty
  have hmax : max 1 view.text.length = view.text.length := by omega
  have hfull := h.fullSizeChars
  have hoffset := h.page.offset
  refine ⟨by simp [RefView.shrunk, hmax], rfl, ?_, rfl, rfl, hlimit, hunshrunk, rfl, ?_⟩
  · simp [RefView.shrunk, hmax, h.page.returnedChars]
  · simp only [RefView.shrunk, hmax, List.take_length, h.page.nextOffset]
    split
    · left
      rw [if_pos (by omega), hoffset]
    · exact Or.inr rfl

theorem shrinkFetchPayload_delivers (cap : Option ℕ) (h : Delivers entry args view)
    (hlimit : view.page.limit < 10 ^ 5) (hlength : view.text.length < 10 ^ 5)
    (hunshrunk : view.page.originalReturnedChars = none)
    (hstop : args.stop entry.payload ≤ entry.payload.length) :
    Delivers entry args (shrinkFetchPayload entry cap view) := by
  unfold shrinkFetchPayload
  cases cap with
  | none => exact h
  | some cap =>
    simp only
    split_ifs with hfits hempty
    · exact h
    · exact h
    · cases hsearch : searchLongest (fun n => decide (entry.measure (view.shrunk n) ≤ cap)) 1
        view.text.length none with
      | none => exact h
      | some n =>
        rcases searchLongest_spec (by omega) hsearch with hnone | ⟨hpos, hle, hn⟩
        · cases hnone
        · refine h.shrunk (by omega) ?_ hstop
          -- all of the text would have been as long as the view that did not fit
          rcases Nat.lt_or_ge n view.text.length with hlt | hge
          · exact hlt
          · obtain rfl : n = view.text.length := by omega
            obtain ⟨htext, hpage⟩ := shrunkPage_full h hlimit hunshrunk hstop
            have hmeasure : entry.measure view ≤ entry.measure (view.shrunk view.text.length) :=
              RefEntry.measure_le_shrunk htext hpage hlength
                (alignedLength_bounds entry.payload view).1
            exact absurd (hmeasure.trans (of_decide_eq_true hn)) hfits

/-- **A fetch delivers a page** of what it asks for. -/
theorem deliver_delivers (cap : Option ℕ) (hstart : args.offset < args.stop entry.payload)
    (hstop : args.stop entry.payload ≤ entry.payload.length) :
    Delivers entry args (entry.deliver cap args) := by
  obtain ⟨-, hlimit⟩ := args.limitChars_bounds
  have hview := materializeHashRefView_delivers hstart hstop
  have hlength : (materializeHashRefView entry.payload args).text.length ≤ args.limitChars := by
    simp only [materializeHashRefView, positiveInt_zero_none, slice, List.length_take,
      List.length_drop]
    omega
  have hpage : (materializeHashRefView entry.payload args).page.limit = args.limitChars := rfl
  exact alignSourceContinuationPage_delivers
    (shrinkFetchPayload_delivers cap hview (by omega) (by omega) rfl hstop)

end Page

/-! ## 4. The chain -/

/-- The pages are those of the payload from `start` to `stop`, one after the other. -/
def PagesFrom (payload : Utf16) (stop : ℕ) : ℕ → List RefView → Prop
  | start, [] => start = stop
  | start, view :: rest =>
    PageAt payload start stop view ∧ PagesFrom payload stop (start + view.text.length) rest

/-- The texts of the pages are the text between. -/
theorem PagesFrom.flatten {payload : Utf16} {start stop : ℕ} {pages : List RefView}
    (h : PagesFrom payload stop start pages) :
    (pages.map (·.text)).flatten = slice payload start stop := by
  induction pages generalizing start with
  | nil =>
    obtain rfl : start = stop := h
    simp [slice]
  | cons view rest ih =>
    obtain ⟨hview, hrest⟩ := h
    have hwithin := hview.within
    rw [List.map_cons, List.flatten_cons, ih hrest, hview.text]
    have hlength : (slice payload start (start + view.text.length)).length = view.text.length := by
      rw [← hview.text]
    rw [hlength]
    exact slice_append (by omega) hwithin

section Chain

variable {entry : RefEntry} (cap : Option ℕ) (inheritLimit : Bool) (limit : ℕ) {args : FetchArgs}
  {view : RefView}

theorem nextHashRefViewSelector_last (h : Delivers entry args view)
    (hlast : args.offset + view.text.length = args.stop entry.payload) :
    nextHashRefViewSelector view inheritLimit limit = none := by
  have hmore : view.page.hasMore = false := by
    rw [h.page.hasMore]
    exact decide_eq_false (by omega)
  simp [nextHashRefViewSelector, hmore]

theorem nextHashRefViewSelector_more (h : Delivers entry args view)
    (hmore : args.offset + view.text.length < args.stop entry.payload) :
    ∃ args', nextHashRefViewSelector view inheritLimit limit = some args' ∧
      args'.offset = args.offset + view.text.length ∧
      args'.endOffset = args.endOffset.map fun _ => args.stop entry.payload := by
  have hpage : view.page.hasMore = true := by
    rw [h.page.hasMore]
    exact decide_eq_true hmore
  have hnext : view.page.nextOffset = some (args.offset + view.text.length) := by
    rw [h.page.nextOffset, if_pos hmore]
  exact ⟨_, by rw [nextHashRefViewSelector, if_pos hpage, hnext, Option.map_some], rfl, h.endOffset⟩

/-- The cursor keeps the end of the read. -/
theorem stop_next {args' : FetchArgs} (hoffset : args'.offset ≤ args.stop entry.payload)
    (hend : args'.endOffset = args.endOffset.map fun _ => args.stop entry.payload)
    (hstop : args.stop entry.payload ≤ entry.payload.length) :
    args'.stop entry.payload = args.stop entry.payload := by
  unfold FetchArgs.stop at *
  rw [hend]
  cases hargs : args.endOffset with
  | none => rfl
  | some e =>
    simp only [hargs, Option.map_some] at hoffset hstop ⊢
    omega

/-- **The chain ends, and its pages are the text.** -/
theorem exists_cursorChain (n : ℕ) (hn : args.stop entry.payload - args.offset ≤ n)
    (hstart : args.offset < args.stop entry.payload)
    (hstop : args.stop entry.payload ≤ entry.payload.length) :
    ∃ pages, CursorChain entry cap inheritLimit limit args pages ∧
      PagesFrom entry.payload (args.stop entry.payload) args.offset pages := by
  induction n generalizing args with
  | zero => omega
  | succ n ih =>
    have hview := deliver_delivers cap hstart hstop
    have hwithin := hview.page.within
    have hpos := List.length_pos_of_ne_nil hview.page.nonempty
    rcases Nat.lt_or_ge (args.offset + (entry.deliver cap args).text.length)
      (args.stop entry.payload) with hmore | hlast
    · obtain ⟨args', hnext, hoffset, hend⟩ :=
        nextHashRefViewSelector_more inheritLimit limit hview hmore
      have hsame := stop_next (by omega) hend hstop
      obtain ⟨pages, hpages, hfrom⟩ := @ih args' (by omega) (by omega) (by omega)
      refine ⟨entry.deliver cap args :: pages, .more args args' pages hnext hpages, hview.page, ?_⟩
      rw [hsame, hoffset] at hfrom
      exact hfrom
    · have hdone : args.offset + (entry.deliver cap args).text.length = args.stop entry.payload := by
        omega
      exact ⟨[entry.deliver cap args], .last args (nextHashRefViewSelector_last _ _ hview hdone),
        hview.page, hdone⟩

end Chain

/-! ## 5. Whole rows of a text -/

section Complete

variable {u : ℕ} {rest text : Utf16}

theorem isTerminated_cons {row : Utf16} (h : row ≠ []) : isTerminated (u :: row) = isTerminated row := by
  cases row with
  | nil => exact absurd rfl h
  | cons v row => simp [isTerminated, List.getLast?_cons_cons]

theorem endsSourceRow_iff : endsSourceRow u rest = true ↔ u = 10 ∨ u = 13 ∧ rest.head? ≠ some 10 := by
  simp [endsSourceRow]

theorem completeLength_of_terminated {row : Utf16} {rows : List Utf16}
    (h : isTerminated row = true) :
    completeLength (row :: rows) = row.length + completeLength rows := if_pos h

theorem completeLength_of_not_terminated {row : Utf16} {rows : List Utf16}
    (h : ¬ isTerminated row = true) : completeLength (row :: rows) = 0 := if_neg h

/-- The whole rows of a text, unit by unit. -/
theorem completeLength_sourceRows_cons :
    completeLength (sourceRows (u :: rest)) =
      if endsSourceRow u rest then 1 + completeLength (sourceRows rest)
      else if completeLength (sourceRows rest) = 0 then 0
      else 1 + completeLength (sourceRows rest) := by
  unfold sourceRows
  cases hends : endsSourceRow u rest with
  | true =>
    have hu : isTerminated [u] = true := by
      rcases endsSourceRow_iff.mp hends with rfl | ⟨rfl, -⟩ <;> rfl
    rw [rowsBy_cons_of_ends hends, completeLength, if_pos hu]
    simp
  | false =>
    rw [rowsBy_cons_of_not_ends hends]
    simp only [Bool.false_eq_true, if_false]
    cases hrows : rowsBy endsSourceRow rest with
    | nil =>
      obtain rfl := rowsBy_eq_nil_iff.mp hrows
      have hu : ¬ (u = 10 ∨ u = 13) := by
        intro hu
        rw [← Bool.not_eq_true, endsSourceRow_iff] at hends
        simp at hends
        omega
      have hterm : isTerminated [u] = false := by
        simp only [isTerminated, List.getLast?_singleton, Bool.or_eq_false_iff, beq_eq_false_iff_ne,
          ne_eq, Option.some.injEq]
        omega
      simp [completeLength, hterm]
    | cons row rows =>
      have hrow : row ≠ [] := by
        have hmem : row ∈ rowsBy endsSourceRow rest := by
          rw [hrows]
          exact List.mem_cons_self
        exact ne_nil_of_mem_rowsBy hmem
      have hpos := List.length_pos_of_ne_nil hrow
      by_cases hterm : isTerminated row = true
      · have hterm' : isTerminated (u :: row) = true := (isTerminated_cons hrow).trans hterm
        rw [completeLength_of_terminated hterm, completeLength_of_terminated hterm',
          if_neg (by omega), List.length_cons]
        omega
      · have hterm' : ¬ isTerminated (u :: row) = true := by rwa [isTerminated_cons hrow]
        rw [completeLength_of_not_terminated hterm, completeLength_of_not_terminated hterm',
          if_pos rfl]

/-- A text has no whole row if it has no terminator. -/
theorem completeLength_eq_zero_iff :
    completeLength (sourceRows text) = 0 ↔ ∀ u ∈ text, u ≠ 10 ∧ u ≠ 13 := by
  induction text with
  | nil => simp [sourceRows, rowsBy, completeLength]
  | cons u rest ih =>
    rw [completeLength_sourceRows_cons]
    split_ifs with hends hzero
    · refine ⟨fun h => by omega, fun h => ?_⟩
      have hu := h u List.mem_cons_self
      rw [endsSourceRow_iff] at hends
      omega
    · refine ⟨fun _ v hv => ?_, fun _ => rfl⟩
      rcases List.mem_cons.mp hv with rfl | hv
      · refine ⟨fun hv => hends (endsSourceRow_iff.mpr (Or.inl hv)), fun hv => ?_⟩
        refine hends (endsSourceRow_iff.mpr (Or.inr ⟨hv, fun hhead => ?_⟩))
        exact (ih.mp hzero 10 (List.mem_of_mem_head? hhead)).1 rfl
      · exact ih.mp hzero v hv
    · refine ⟨fun h => by omega, fun h => ?_⟩
      exact absurd (ih.mpr fun v hv => h v (List.mem_cons_of_mem u hv)) hzero

/-- A text is whole rows if a terminator is its last unit. -/
theorem completeLength_eq_length_iff (hne : text ≠ []) :
    completeLength (sourceRows text) = text.length ↔ isTerminated text = true := by
  induction text with
  | nil => exact absurd rfl hne
  | cons u rest ih =>
    have hle := completeLength_sourceRows_le rest
    rw [completeLength_sourceRows_cons, List.length_cons]
    by_cases hrest : rest = []
    · subst hrest
      have hzero : completeLength (sourceRows []) = 0 := rfl
      simp only [hzero, isTerminated, List.getLast?_singleton, List.length_nil, if_true]
      by_cases hu : u = 10 ∨ u = 13
      · have hends : endsSourceRow u [] = true := endsSourceRow_iff.mpr (by simpa using hu)
        simp only [hends, if_true]
        rcases hu with rfl | rfl <;> simp
      · have hends : ¬ endsSourceRow u [] = true := fun h => hu (by simpa using endsSourceRow_iff.mp h)
        simp only [hends]
        simp only [not_or] at hu
        simp [hu]
    · have hpos := List.length_pos_of_ne_nil hrest
      rw [isTerminated_cons hrest, ← ih hrest]
      split_ifs with hends hzero
      · omega
      · exact ⟨False.elim, fun h => by omega⟩
      · omega

end Complete

/-! ## 6. Line ranges -/

section Range

variable {entry : RefEntry} {payload : Utf16}

theorem selectorRows_flatten (text : Utf16) : (selectorRows text).flatten = text :=
  rowsBy_flatten text

/-- Rows before another end in a line feed. -/
theorem selectorRows_before {before after : List Utf16} {row : Utf16}
    (h : selectorRows payload = before ++ row :: after) :
    before.flatten = [] ∨ ∃ init, before.flatten = init ++ [10] := by
  rcases List.eq_nil_or_concat before with rfl | ⟨init, last, rfl⟩
  · exact Or.inl rfl
  · rw [List.concat_eq_append, List.append_assoc, List.singleton_append] at h
    obtain ⟨pre, u, rfl, hu⟩ := rowsBy_ends h (List.cons_ne_nil _ _)
    obtain rfl : u = 10 := by simpa using hu
    refine Or.inr ⟨init.flatten ++ pre, ?_⟩
    simp

/-- A row is its text and its newline. -/
theorem withoutNewline_cases (row : Utf16) :
    row = withoutNewline row ∨
      (row = withoutNewline row ++ [10] ∧ (withoutNewline row).getLast? ≠ some 13) ∨
      row = withoutNewline row ++ [13, 10] := by
  have hconcat : ∀ (s : Utf16) (u : ℕ), s.getLast? = some u → s = s.dropLast ++ [u] :=
    fun s u hs => (List.dropLast_append_getLast? u hs).symm
  unfold withoutNewline
  split_ifs with hlf hcr
  · have hrow := hconcat row 10 (by simpa using hlf)
    have hinit := hconcat row.dropLast 13 (by simpa using hcr)
    refine Or.inr (Or.inr ?_)
    rw [hinit, List.append_assoc] at hrow
    simpa using hrow
  · exact Or.inr (Or.inl ⟨hconcat row 10 (by simpa using hlf), by simpa using hcr⟩)
  · exact Or.inl rfl

/-- The rows around the row of a number. -/
theorem selectorRows_split {i : ℕ} (hi : i < (selectorRows payload).length) :
    ∃ before row after, selectorRows payload = before ++ row :: after ∧
      payload = before.flatten ++ (row ++ after.flatten) ∧
      rowIndex (selectorRows payload) i = before.flatten.length ∧
      rowStop (selectorRows payload) i = before.flatten.length + (withoutNewline row).length := by
  have hsplit : selectorRows payload = (selectorRows payload).take i ++
      (selectorRows payload)[i] :: (selectorRows payload).drop (i + 1) := by
    rw [List.cons_getElem_drop_succ, List.take_append_drop]
  refine ⟨_, _, _, hsplit, ?_, rfl, ?_⟩
  · have hflat := congrArg List.flatten hsplit
    rw [selectorRows_flatten, List.flatten_append, List.flatten_cons] at hflat
    exact hflat
  · rw [rowStop, List.getD_eq_getElem _ _ hi]
    rfl

theorem length_withoutNewline_le (row : Utf16) : (withoutNewline row).length ≤ row.length := by
  have hlength : ∀ {s t : Utf16}, s = t → s.length = t.length := fun h => h ▸ rfl
  rcases withoutNewline_cases row with h | ⟨h, -⟩ | h
  · exact (hlength h).ge
  · have := hlength h
    rw [List.length_append] at this
    omega
  · have := hlength h
    rw [List.length_append] at this
    omega

theorem rowStop_le {i : ℕ} (hi : i < (selectorRows payload).length) :
    rowStop (selectorRows payload) i ≤ payload.length := by
  obtain ⟨before, row, after, -, hpayload, -, hstop⟩ := selectorRows_split hi
  have hle := length_withoutNewline_le row
  have hlength := congrArg List.length hpayload
  rw [List.length_append, List.length_append] at hlength
  omega

/-- A line range begins a row. -/
theorem beginsLine_rowIndex {i : ℕ} (hi : i < (selectorRows payload).length) :
    beginsLine payload (rowIndex (selectorRows payload) i) = true := by
  obtain ⟨before, row, after, hrows, hpayload, hindex, -⟩ := selectorRows_split hi
  rw [hindex]
  rcases selectorRows_before hrows with hnil | ⟨init, hinit⟩
  · rw [hnil]
    rfl
  · have hget : payload[before.flatten.length - 1]? = some 10 := by
      rw [hpayload, hinit]
      simp
    simp only [beginsLine, hget]
    simp

/-- **A line range cuts no pair** at its end. -/
theorem cutsPair_rowStop {i : ℕ} (hi : i < (selectorRows payload).length)
    (hlt : rowStop (selectorRows payload) i < payload.length) :
    cutsPair payload (rowStop (selectorRows payload) i) = false := by
  obtain ⟨before, row, after, hrows, hpayload, -, hstop⟩ := selectorRows_split hi
  have hgetStop : ∀ {s t : Utf16} {u : ℕ}, row = s ++ u :: t → (withoutNewline row).length = s.length →
      payload[rowStop (selectorRows payload) i]? = some u := by
    intro s t u hrow hlength
    rw [hstop, hlength, hpayload, hrow]
    simp
  rcases withoutNewline_cases row with hrow | ⟨hrow, hlast⟩ | hrow
  · -- a row without a newline is the last
    exfalso
    have hafter : after = [] := by
      by_contra hne
      obtain ⟨init, u, hu, hends⟩ := rowsBy_ends hrows hne
      obtain rfl : u = 10 := by simpa using hends
      rw [hu] at hrow
      have hlength := congrArg List.length hrow
      simp [withoutNewline] at hlength
      split at hlength <;> simp at hlength
      omega
    have hlength := congrArg List.length hpayload
    rw [hafter, List.length_append, List.length_append, List.flatten_nil, List.length_nil] at hlength
    have hsame := congrArg List.length hrow
    omega
  · have hget : payload[rowStop (selectorRows payload) i]? = some 10 := hgetStop hrow rfl
    have hbefore : payload[rowStop (selectorRows payload) i - 1]? ≠ some 13 := by
      rcases List.eq_nil_or_concat (withoutNewline row) with hnil | ⟨init, v, hv⟩
      · rw [hstop, hnil, List.length_nil, Nat.add_zero]
        rcases selectorRows_before hrows with hempty | ⟨init, hinit⟩
        · rw [hstop, hnil, hempty] at hget
          rw [hempty]
          simp only [List.length_nil, Nat.add_zero] at hget
          simp [hget]
        · rw [hpayload, hinit]
          simp
      · rw [List.concat_eq_append] at hv
        have hv13 : v ≠ 13 := by
          intro heq
          rw [hv, heq] at hlast
          simp at hlast
        have hindex : payload[before.flatten.length + init.length]? = some v := by
          rw [hpayload, hrow, hv]
          simp
        rw [hstop, hv, List.length_append, List.length_singleton, ← Nat.add_assoc,
          Nat.add_sub_cancel, hindex]
        simpa using hv13
    have htrail : isTrail 10 = false := by decide
    simp [cutsPair, hget, hbefore, htrail]
  · have hget : payload[rowStop (selectorRows payload) i]? = some 13 := hgetStop hrow rfl
    have htrail : isTrail 13 = false := by decide
    simp [cutsPair, hget, htrail]

/-- What the fetch of a line range asks for. -/
structure IsLineRange (payload : Utf16) (args : FetchArgs) : Prop where
  begins : beginsLine payload args.offset = true
  ordered : args.offset ≤ args.stop payload
  within : args.stop payload ≤ payload.length
  uncut : args.stop payload < payload.length → cutsPair payload (args.stop payload) = false

theorem isLineRange_of_lineRangeArgs {issuedLimit : Option ℕ} {start stop limit : ℕ}
    {args : FetchArgs} (h : lineRangeArgs entry issuedLimit start stop limit = some args) :
    IsLineRange entry.payload args := by
  unfold lineRangeArgs at h
  simp only at h
  split_ifs at h with hbad
  simp only [not_or] at hbad
  obtain ⟨hstart, horder, hlines, -⟩ := hbad
  have hi : start - 1 < (selectorRows entry.payload).length := by omega
  have hj : stop - 1 < (selectorRows entry.payload).length := by omega
  obtain rfl := Option.some.inj h
  have hle := rowIndex_le (show start - 1 ≤ stop - 1 by omega) (selectorRows entry.payload)
  have hstopLe : rowIndex (selectorRows entry.payload) (stop - 1) ≤
      rowStop (selectorRows entry.payload) (stop - 1) := Nat.le_add_right _ _
  have hwithin := rowStop_le hj
  have hstop : FetchArgs.stop
      { offset := rowIndex (selectorRows entry.payload) (start - 1)
        endOffset := some (rowStop (selectorRows entry.payload) (stop - 1))
        limit := limit } entry.payload = rowStop (selectorRows entry.payload) (stop - 1) := by
    simp only [FetchArgs.stop]
    omega
  refine ⟨beginsLine_rowIndex hi, ?_, ?_, fun hlt => ?_⟩
  · rw [hstop]
    exact hle.trans hstopLe
  · rw [hstop]
    exact hwithin
  · rw [hstop] at hlt ⊢
    exact cutsPair_rowStop hj hlt

end Range

/-! ## 7. Reads -/

/-- The pages of a read are the text it asks for, once. -/
def IsReadBy (entry : RefEntry) (cap : Option ℕ) (inheritLimit : Bool) (limit : ℕ) (args : FetchArgs)
    (pages : List RefView) : Prop :=
  CursorChain entry cap inheritLimit limit args pages ∧
    PagesFrom entry.payload (args.stop entry.payload) args.offset pages ∧
    (pages.map (·.text)).flatten = slice entry.payload args.offset (args.stop entry.payload)

/-- What a fetch asks for fits its limit and the cap. -/
def FitsOnePage (entry : RefEntry) (cap : Option ℕ) (args : FetchArgs) : Prop :=
  args.stop entry.payload - args.offset ≤ args.limitChars ∧
    ∀ c, cap = some c → entry.measure (materializeHashRefView entry.payload args) ≤ c

/-- No whole row of a raw source ends inside what a fetch asks for: the range has no terminator, or has
one at its end, or ends with the payload. -/
def EndsAtWholeRow (entry : RefEntry) (args : FetchArgs) : Prop :=
  entry.isRawSource = true → args.stop entry.payload < entry.payload.length →
    (∀ u ∈ slice entry.payload args.offset (args.stop entry.payload), u ≠ 10 ∧ u ≠ 13) ∨
      isTerminated (slice entry.payload args.offset (args.stop entry.payload)) = true

section Read

variable {entry : RefEntry} {cap : Option ℕ} {inheritLimit : Bool} {limit : ℕ} {args : FetchArgs}

theorem alignedLength_of_uncut {full : Utf16} {view : RefView}
    (h : cutsPair full (view.page.offset + view.text.length) = false) :
    alignedLength full view = if 0 < completeLength (sourceRows view.text) then
      completeLength (sourceRows view.text) else view.text.length := by
  unfold alignedLength
  simp only [h, Bool.false_eq_true, and_false, if_false, List.take_length]

/-- A page that begins a row and cuts no pair is cut to whole rows, and to nothing else. -/
theorem align_length_iff {view : RefView} (hne : view.text ≠ [])
    (hbegins : beginsLine entry.payload view.page.offset = true)
    (huncut : view.page.offset + view.text.length < entry.payload.length →
      cutsPair entry.payload (view.page.offset + view.text.length) = false) :
    (alignSourceContinuationPage entry view).text.length = view.text.length ↔
      (entry.isRawSource = true → view.page.offset + view.text.length < entry.payload.length →
        (∀ u ∈ view.text, u ≠ 10 ∧ u ≠ 13) ∨ isTerminated view.text = true) := by
  have hzero : completeLength (sourceRows view.text) = 0 ↔ ∀ u ∈ view.text, u ≠ 10 ∧ u ≠ 13 :=
    completeLength_eq_zero_iff
  have hall := completeLength_eq_length_iff hne
  have hle := completeLength_sourceRows_le view.text
  have hempty : view.text.isEmpty = false := by simpa using hne
  by_cases hraw : entry.isRawSource = true
  · by_cases hfull : view.page.offset + view.text.length < entry.payload.length
    · have haligned := alignedLength_of_uncut (huncut hfull)
      have hlength : (alignSourceContinuationPage entry view).text.length =
          alignedLength entry.payload view := by
        have hbound := (alignedLength_bounds entry.payload view).1
        unfold alignSourceContinuationPage
        simp only [hraw, hempty, Bool.not_true, Bool.or_false, Bool.false_eq_true, if_false,
          if_neg (not_le.mpr hfull), hbegins]
        split_ifs with hsame
        · exact hsame.symm
        · rw [List.length_take]
          omega
      rw [hlength, haligned, ← hzero, ← hall]
      constructor
      · intro h _ _
        split at h <;> omega
      · intro h
        have hcases := h hraw hfull
        split <;> omega
    · have hkept : alignSourceContinuationPage entry view = view := by
        unfold alignSourceContinuationPage
        simp [hraw, hempty, not_lt.mp hfull]
      rw [hkept]
      exact ⟨fun _ _ h => absurd h hfull, fun _ => rfl⟩
  · have hkept : alignSourceContinuationPage entry view = view := by
      unfold alignSourceContinuationPage
      simp [hraw]
    rw [hkept]
    exact ⟨fun _ h => absurd h hraw, fun _ => rfl⟩

/-- **The first page of a line range that fits** is all of it, unless whole rows end inside. -/
theorem deliver_length_iff (h : IsLineRange entry.payload args)
    (hne : args.offset < args.stop entry.payload) (hfits : FitsOnePage entry cap args) :
    args.offset + (entry.deliver cap args).text.length = args.stop entry.payload ↔
      EndsAtWholeRow entry args := by
  obtain ⟨hlimit, hcap⟩ := hfits
  have hshrink : shrinkFetchPayload entry cap (materializeHashRefView entry.payload args) =
      materializeHashRefView entry.payload args := by
    unfold shrinkFetchPayload
    cases cap with
    | none => rfl
    | some c => exact if_pos (hcap c rfl)
  have hview := materializeHashRefView_delivers hne h.within
  have htext : (materializeHashRefView entry.payload args).text =
      slice entry.payload args.offset (args.stop entry.payload) := by
    have hmin : min (args.stop entry.payload) (args.offset + args.limitChars) =
        args.stop entry.payload := by omega
    simp only [materializeHashRefView, positiveInt_zero_none, hmin]
  have hoffset : (materializeHashRefView entry.payload args).page.offset = args.offset :=
    hview.page.offset
  have hend : args.offset + (materializeHashRefView entry.payload args).text.length =
      args.stop entry.payload := by
    rw [htext, length_slice h.ordered h.within]
    omega
  have halign := align_length_iff hview.page.nonempty
    (show beginsLine entry.payload _ = true by rw [hoffset]; exact h.begins)
    (by rw [hoffset, hend]; exact h.uncut)
  rw [hoffset, hend, htext] at halign
  rw [EndsAtWholeRow, ← halign, RefEntry.deliver, hshrink, ← htext]
  omega

theorem CursorChain.head {pages : List RefView}
    (h : CursorChain entry cap inheritLimit limit args pages) :
    ∃ rest, pages = entry.deliver cap args :: rest := by
  cases h with
  | last _ _ => exact ⟨[], rfl⟩
  | more _ _ rest _ _ => exact ⟨rest, rfl⟩

theorem PagesFrom.eq_nil {payload : Utf16} {stop : ℕ} {pages : List RefView}
    (h : PagesFrom payload stop stop pages) : pages = [] := by
  cases pages with
  | nil => rfl
  | cons view rest =>
    have hwithin := h.1.within
    have hpos := List.length_pos_of_ne_nil h.1.nonempty
    omega

/-- A read of some text has its pages, and a read of nothing has none. -/
theorem exists_isReadBy_iff (hle : args.offset ≤ args.stop entry.payload)
    (hstop : args.stop entry.payload ≤ entry.payload.length) :
    (∃ pages, IsReadBy entry cap inheritLimit limit args pages) ↔
      args.offset < args.stop entry.payload := by
  constructor
  · rintro ⟨pages, hchain, hpages, -⟩
    rcases Nat.lt_or_ge args.offset (args.stop entry.payload) with hlt | hge
    · exact hlt
    · have heq : args.offset = args.stop entry.payload := by omega
      obtain ⟨rest, rfl⟩ := hchain.head
      rw [heq] at hpages
      cases hpages.eq_nil
  · intro hlt
    obtain ⟨pages, hchain, hpages⟩ :=
      exists_cursorChain cap inheritLimit limit _ le_rfl hlt hstop
    exact ⟨pages, hchain, hpages, hpages.flatten⟩

/-- **A line range is read once**, in one page where it fits and no whole row ends inside. -/
theorem lineRange_isReadBy_iff (h : IsLineRange entry.payload args) :
    (∃ pages, IsReadBy entry cap inheritLimit limit args pages ∧
      (FitsOnePage entry cap args → pages.length = 1)) ↔
      args.offset < args.stop entry.payload ∧
        (FitsOnePage entry cap args → EndsAtWholeRow entry args) := by
  have hread : (∃ pages, IsReadBy entry cap inheritLimit limit args pages) ↔
      args.offset < args.stop entry.payload := exists_isReadBy_iff h.ordered h.within
  constructor
  · rintro ⟨pages, hpages, hone⟩
    have hlt := hread.mp ⟨pages, hpages⟩
    refine ⟨hlt, fun hfits => (deliver_length_iff h hlt hfits).mp ?_⟩
    obtain ⟨hchain, hfrom, -⟩ := hpages
    obtain ⟨rest, rfl⟩ := hchain.head
    have hrest : rest = [] := by
      have hlength := hone hfits
      rw [List.length_cons] at hlength
      exact List.length_eq_zero_iff.mp (by omega)
    rw [hrest] at hfrom
    exact hfrom.2
  · rintro ⟨hlt, hends⟩
    obtain ⟨pages, hpages⟩ := hread.mpr hlt
    refine ⟨pages, hpages, fun hfits => ?_⟩
    obtain ⟨hchain, hfrom, -⟩ := hpages
    obtain ⟨rest, rfl⟩ := hchain.head
    have hdone := (deliver_length_iff h hlt hfits).mpr (hends hfits)
    have hrest := hfrom.2
    rw [hdone] at hrest
    rw [hrest.eq_nil]
    rfl

end Read

/-- **Following cursors reads a stored payload exactly once**: a payload from its start if it is not
empty, and a line range if it is not empty and, where it fits one page, ends at a whole row. -/
theorem cursors_read_once_iff (entry : RefEntry) (cap : Option ℕ) (inheritLimit : Bool)
    (limit : ℕ) (issuedLimit : Option ℕ) :
    ((∃ pages, IsReadBy entry cap inheritLimit limit ⟨0, none, limit⟩ pages) ↔ entry.payload ≠ []) ∧
    ∀ start stop args, lineRangeArgs entry issuedLimit start stop limit = some args →
      ((∃ pages, IsReadBy entry cap inheritLimit limit args pages ∧
        (FitsOnePage entry cap args → pages.length = 1)) ↔
        args.offset < args.stop entry.payload ∧
          (FitsOnePage entry cap args → EndsAtWholeRow entry args)) := by
  refine ⟨?_, fun start stop args hargs =>
    lineRange_isReadBy_iff (isLineRange_of_lineRangeArgs hargs)⟩
  have hstop : FetchArgs.stop ⟨0, none, limit⟩ entry.payload = entry.payload.length := rfl
  rw [exists_isReadBy_iff (Nat.zero_le _) (le_of_eq hstop), hstop]
  exact List.length_pos_iff

/-- The first of three lines, each read by itself. -/
theorem cursors_read_once_iff_line :
    let entry : RefEntry := ⟨units "a\nb\nc\n", true, [], fun _ _ => none⟩
    ∃ pages, IsReadBy entry none true 8000 ⟨0, some 1, 8000⟩ pages ∧
      (FitsOnePage entry none ⟨0, some 1, 8000⟩ → pages.length = 1) := by
  intro entry
  have hargs : lineRangeArgs entry none 1 1 8000 = some ⟨0, some 1, 8000⟩ := by decide
  refine ((cursors_read_once_iff entry none true 8000 none).2 1 1 _ hargs).mpr ⟨by decide, ?_⟩
  exact fun _ _ _ => Or.inl (by decide)

/-- Two of three lines fit, and are delivered in two pages. -/
theorem lineRange_read_twice :
    let entry : RefEntry := ⟨units "a\nb\nc\n", true, [], fun _ _ => none⟩
    lineRangeArgs entry none 1 2 8000 = some ⟨0, some 3, 8000⟩ ∧
      FitsOnePage entry none ⟨0, some 3, 8000⟩ ∧
      ¬ ∃ pages, IsReadBy entry none true 8000 ⟨0, some 3, 8000⟩ pages ∧
        (FitsOnePage entry none ⟨0, some 3, 8000⟩ → pages.length = 1) := by
  intro entry
  have hargs : lineRangeArgs entry none 1 2 8000 = some ⟨0, some 3, 8000⟩ := by decide
  have hfits : FitsOnePage entry none ⟨0, some 3, 8000⟩ :=
    ⟨by decide, fun c hc => by cases hc⟩
  refine ⟨hargs, hfits, fun hread => ?_⟩
  have hends := ((lineRange_isReadBy_iff (isLineRange_of_lineRangeArgs hargs)).mp hread).2 hfits
  rcases hends rfl (by decide) with hnone | hlast
  · exact absurd (hnone 10 (by decide)).1 (by decide)
  · exact absurd hlast (by decide)

end PosseClient
