/-
# Lock paths and scope paths

`normalizeLockPath` of `file-locks.js` and `normPath` of the scopes are two normalizers of one kind
of text.  `normPath` drops every `.` and every empty segment; `normalizeLockPath` drops one leading
`./` and the slashes at the end, refuses texts with `.` segments, and keeps the slashes between.

* `lockBody` is the text a lock path is made of, where it is `Lockable`.
* `lockPath_canonical_iff`: the spellings of a location have one lock path exactly where the
  location takes no lock at all.  `lockPath_of_plain`: spelled without empty, `.` and `..` segments
  they do.
-/
import PosseClient.Scope.PathSegments

namespace PosseClient

/-! ## 1. Texts that take a lock -/

/-- The text a lock path is made of. -/
def lockBody (p : String) : List Char :=
  trimChars (stripTrailingSlashes (stripDotSlash (forwardSlashes p.toList)))

/-- **A text that takes a lock**: relative, without `.` and `..` segments, and outside the
directories of posse. -/
structure Lockable (cs : List Char) : Prop where
  nonempty : cs ≠ []
  relative : cs.head? ≠ some '/'
  drive : startsWithDrive cs = false
  parent : ['.', '.'] ∉ pathParts cs
  dot : ['.'] ∉ pathParts cs
  free : isReservedSegment ((pathParts cs).headD []) = false

theorem lockable_star : Lockable ['*'] := by
  constructor <;> decide

theorem normalizeLockPath_eq (p : String) :
    normalizeLockPath p =
      if lockBody p = [] then ""
      else if lockBody p ≠ ['*'] ∧ ((lockBody p).head? = some '/' ∨
        startsWithDrive (lockBody p) = true ∨ ['.', '.'] ∈ pathParts (lockBody p) ∨
          ['.'] ∈ pathParts (lockBody p)) then ""
      else if isReservedSegment ((pathParts (lockBody p)).headD []) then ""
      else String.ofList (lockBody p) := rfl

/-- **The lock path of a text.** -/
theorem normalizeLockPath_of_lockable {p : String} (h : Lockable (lockBody p)) :
    normalizeLockPath p = String.ofList (lockBody p) := by
  rw [normalizeLockPath_eq, if_neg h.nonempty, if_neg, h.free, if_neg Bool.false_ne_true]
  rintro ⟨-, hrel | hdrive | hparent | hdot⟩
  · exact h.relative hrel
  · rw [h.drive] at hdrive
    cases hdrive
  · exact h.parent hparent
  · exact h.dot hdot

theorem normalizeLockPath_of_not_lockable {p : String} (h : ¬ Lockable (lockBody p)) :
    normalizeLockPath p = "" := by
  rw [normalizeLockPath_eq]
  split_ifs with hempty hguard hfree
  · rfl
  · rfl
  · rfl
  · exfalso
    by_cases hstar : lockBody p = ['*']
    · exact h (hstar ▸ lockable_star)
    · have hpass : ¬ ((lockBody p).head? = some '/' ∨ startsWithDrive (lockBody p) = true ∨
          ['.', '.'] ∈ pathParts (lockBody p) ∨ ['.'] ∈ pathParts (lockBody p)) :=
        fun hrefused => hguard ⟨hstar, hrefused⟩
      simp only [not_or] at hpass
      obtain ⟨hrel, hdrive, hparent, hdot⟩ := hpass
      exact h ⟨hempty, hrel, by simpa using hdrive, hparent, hdot, by simpa using hfree⟩

theorem normalizeLockPath_ne_empty_iff {p : String} :
    normalizeLockPath p ≠ "" ↔ Lockable (lockBody p) := by
  constructor
  · intro h
    by_contra hnot
    exact h (normalizeLockPath_of_not_lockable hnot)
  · intro h hempty
    rw [normalizeLockPath_of_lockable h] at hempty
    have hnil := congrArg String.toList hempty
    rw [String.toList_ofList] at hnil
    exact h.nonempty hnil

/-- A drive stands alone in its segment. -/
theorem startsWithDrive_iff {cs w : List Char} {ws : List (List Char)}
    (h : pathParts cs = w :: ws) :
    startsWithDrive cs = true ↔ (∃ x, x.isAlpha = true ∧ w = [x, ':']) ∧ ws ≠ [] := by
  obtain ⟨hw, hcs⟩ := pathParts_eq_cons h
  unfold startsWithDrive
  rw [Bool.and_eq_true, beq_iff_eq]
  constructor
  · rintro ⟨halpha, htake⟩
    cases cs with
    | nil => cases htake
    | cons x l =>
      have hl : l = [':', '/'] ++ l.drop 2 := by
        rw [← htake]
        exact (List.take_append_drop 2 l).symm
      have hparts : pathParts ([x, ':'] ++ '/' :: l.drop 2) =
          pathParts [x, ':'] ++ pathParts (l.drop 2) := pathParts_append_slash _ _
      have hx : '/' ∉ [x, ':'] := by
        intro hmem
        rcases List.mem_cons.mp hmem with heq | hmem
        · change x.isAlpha = true at halpha
          rw [← heq] at halpha
          revert halpha
          decide
        · revert hmem
          decide
      have hcons : x :: l = [x, ':'] ++ '/' :: l.drop 2 := congrArg (List.cons x) hl
      rw [pathParts_of_notMem hx, ← hcons, h] at hparts
      obtain ⟨rfl, rfl⟩ := List.cons.inj hparts
      exact ⟨⟨x, halpha, rfl⟩, pathParts_ne_nil (l.drop 2)⟩
  · rintro ⟨⟨x, halpha, rfl⟩, hws⟩
    rcases hcs with ⟨hnil, -⟩ | ⟨rest, rfl, -⟩
    · exact absurd hnil hws
    · exact ⟨halpha, rfl⟩

/-- What takes a lock, by its segments. -/
theorem lockable_iff {cs w : List Char} {ws : List (List Char)} (h : pathParts cs = w :: ws) :
    Lockable cs ↔ w ≠ [] ∧ (∀ x, x.isAlpha = true → w = [x, ':'] → ws = []) ∧
      ['.', '.'] ∉ w :: ws ∧ ['.'] ∉ w :: ws ∧ isReservedSegment w = false := by
  have hhead : (cs ≠ [] ∧ cs.head? ≠ some '/') ↔ w ≠ [] := by
    obtain ⟨hw, ⟨-, rfl⟩ | ⟨rest, rfl, -⟩⟩ := pathParts_eq_cons h
    · refine ⟨fun hne => hne.1, fun hne => ⟨hne, fun hslash => ?_⟩⟩
      exact hw (List.mem_of_mem_head? hslash)
    · cases w with
      | nil => simp
      | cons c w =>
        refine iff_of_true ⟨by simp, ?_⟩ (by simp)
        rintro hslash
        obtain rfl : c = '/' := Option.some.inj hslash
        exact hw List.mem_cons_self
  have hdrive : startsWithDrive cs = false ↔ ∀ x, x.isAlpha = true → w = [x, ':'] → ws = [] := by
    rw [Bool.eq_false_iff, ne_eq, startsWithDrive_iff h]
    constructor
    · intro hnot x halpha hx
      by_contra hws
      exact hnot ⟨⟨x, halpha, hx⟩, hws⟩
    · rintro hall ⟨⟨x, halpha, hx⟩, hws⟩
      exact hws (hall x halpha hx)
  constructor
  · rintro ⟨hne, hrel, hdrive', hparent, hdot, hfree⟩
    rw [h] at hparent hdot hfree
    exact ⟨hhead.mp ⟨hne, hrel⟩, hdrive.mp hdrive', hparent, hdot, hfree⟩
  · rintro ⟨hw, hdrive', hparent, hdot, hfree⟩
    refine ⟨(hhead.mpr hw).1, (hhead.mpr hw).2, hdrive.mpr hdrive', ?_, ?_, ?_⟩
    · rwa [h]
    · rwa [h]
    · rwa [h]

/-! ## 2. The two normalizers on one text -/

theorem dots_not_trimmed : ∀ c ∈ ['.', '.'], isTrimmed c = false := by
  intro c hc
  have hdot : c = '.' := by simpa using hc
  rw [hdot]
  decide

/-- The segments of a text between spaces. -/
theorem pathParts_between {lead cs tail w : List Char} {ws : List (List Char)}
    (hlead : ∀ c ∈ lead, isTrimmed c = true) (htail : ∀ c ∈ tail, isTrimmed c = true)
    (h : pathParts cs = w :: ws) :
    (ws = [] ∧ cs = w ∧ pathParts (lead ++ cs ++ tail) = [lead ++ (w ++ tail)]) ∨
    ∃ rest, cs = w ++ '/' :: rest ∧ pathParts rest = ws ∧
      pathParts (lead ++ cs ++ tail) = (lead ++ w) :: pathParts (rest ++ tail) := by
  obtain ⟨hw, ⟨rfl, rfl⟩ | ⟨rest, rfl, hrest⟩⟩ := pathParts_eq_cons h
  · refine Or.inl ⟨rfl, rfl, ?_⟩
    rw [List.append_assoc]
    refine pathParts_lead (notMem_of_trimmed hlead) ?_
    exact pathParts_tail (notMem_of_trimmed htail) [] h
  · refine Or.inr ⟨rest, rfl, hrest, ?_⟩
    have hboth : '/' ∉ lead ++ w := fun hmem =>
      (List.mem_append.mp hmem).elim (notMem_of_trimmed hlead) hw
    have hwhole : lead ++ (w ++ '/' :: rest) ++ tail = (lead ++ w) ++ '/' :: (rest ++ tail) := by
      simp only [List.append_assoc, List.cons_append]
    rw [hwhole, pathParts_append_slash, pathParts_of_notMem hboth]
    rfl

/-- Segments between spaces: one without spaces stands in the text itself. -/
theorem mem_parts_between {lead cs tail w : List Char} (hlead : ∀ c ∈ lead, isTrimmed c = true)
    (htail : ∀ c ∈ tail, isTrimmed c = true) (hw : ∀ c ∈ w, isTrimmed c = false)
    (h : w ∈ pathParts (lead ++ cs ++ tail)) : w ∈ pathParts cs := by
  have hsplit : pathParts cs =
      (pathParts cs).dropLast ++ [(pathParts cs).getLast (pathParts_ne_nil cs)] :=
    (List.dropLast_append_getLast _).symm
  have hnone : ∀ {s v : List Char}, (∀ c ∈ s, isTrimmed c = true) → s ⊆ v →
      (∀ c ∈ v, isTrimmed c = false) → s = [] := by
    intro s v hs hsub hv
    refine List.eq_nil_iff_forall_not_mem.mpr fun c hc => ?_
    have hboth := hv c (hsub hc)
    rw [hs c hc] at hboth
    cases hboth
  have hbehind : w ∈ pathParts (cs ++ tail) := by
    obtain ⟨v, vs, hcons⟩ := List.exists_cons_of_ne_nil (pathParts_ne_nil (cs ++ tail))
    rw [List.append_assoc, pathParts_lead (notMem_of_trimmed hlead) hcons] at h
    rw [hcons]
    rcases List.mem_cons.mp h with rfl | h
    · rw [hnone hlead (List.subset_append_left lead v) hw, List.nil_append]
      exact List.mem_cons_self
    · exact List.mem_cons_of_mem v h
  rw [pathParts_tail (notMem_of_trimmed htail) _ hsplit] at hbehind
  rw [hsplit]
  rcases List.mem_append.mp hbehind with hmem | hmem
  · exact List.mem_append_left _ hmem
  · refine List.mem_append_right _ ?_
    have heq := List.mem_singleton.mp hmem
    rw [heq] at hw ⊢
    rw [hnone htail (List.subset_append_right _ tail) hw, List.append_nil]
    exact List.mem_cons_self

/-- Slashes behind a text add no segment that is kept. -/
theorem filter_parts_slashes (cs : List Char) {slashes : List Char} (h : ∀ c ∈ slashes, c = '/') :
    (pathParts (cs ++ slashes)).filter keptSegment = (pathParts cs).filter keptSegment ∧
      ∀ w ∈ pathParts (cs ++ slashes), w ∈ pathParts cs ∨ w = [] := by
  cases slashes with
  | nil =>
    rw [List.append_nil]
    exact ⟨rfl, fun w hw => Or.inl hw⟩
  | cons c rest =>
    have hempty : ∀ w ∈ pathParts rest, w = [] := by
      intro w hw
      obtain ⟨hslash, hsub⟩ := mem_pathParts hw
      refine List.eq_nil_iff_forall_not_mem.mpr fun c hc => ?_
      have hc' : c = '/' := h c (List.mem_cons_of_mem _ (hsub hc))
      exact hslash (hc' ▸ hc)
    rw [h c List.mem_cons_self, pathParts_append_slash, List.filter_append]
    constructor
    · have hnone : (pathParts rest).filter keptSegment = [] :=
        List.filter_eq_nil_iff.mpr fun w hw => by
          rw [hempty w hw]
          decide
      rw [hnone, List.append_nil]
    · intro w hw
      exact (List.mem_append.mp hw).imp id (hempty w)

/-- **The text of the scopes and the text of the lock paths**: they are cut out of one text, with a
leading `./`, spaces and slashes around the second. -/
theorem exists_spelling {p : String} (h : lockBody p ≠ []) :
    ∃ dot lead tail slashes, trimChars (forwardSlashes p.toList) =
        dot ++ (lead ++ lockBody p ++ tail) ++ slashes ∧
      (dot = [] ∧ lead = [] ∨ dot = ['.', '/']) ∧ (∀ c ∈ lead, isTrimmed c = true) ∧
      (∀ c ∈ tail, isTrimmed c = true) ∧ (∀ c ∈ slashes, c = '/') ∧
      (∀ c, (lockBody p).head? = some c → isTrimmed c = false) ∧
      ∀ c, (lockBody p).getLast? = some c → isTrimmed c = false := by
  obtain ⟨slashes, hbody, hslashes, -⟩ :=
    exists_dropEndWhile (· = '/') (stripDotSlash (forwardSlashes p.toList))
  obtain ⟨lead, tail, hcut, hlead, htail, hhead, hlast⟩ := exists_trimChars h
  have hslashes' : ∀ c ∈ slashes, c = '/' := fun c hc => of_decide_eq_true (hslashes c hc)
  change stripDotSlash (forwardSlashes p.toList) =
    stripTrailingSlashes (stripDotSlash (forwardSlashes p.toList)) ++ slashes at hbody
  change stripTrailingSlashes (stripDotSlash (forwardSlashes p.toList)) =
    lead ++ lockBody p ++ tail at hcut
  rw [hcut] at hbody
  -- the end of the text: slashes hold the spaces before them
  have hend : ∀ front : List Char, ∃ tail', (∀ c ∈ tail', isTrimmed c = true) ∧
      dropEndWhile isTrimmed (front ++ lockBody p ++ tail ++ slashes) =
        front ++ lockBody p ++ tail' ++ slashes := by
    intro front
    by_cases hnone : slashes = []
    · refine ⟨[], by simp, ?_⟩
      rw [hnone, List.append_nil, List.append_nil, List.append_nil, dropEndWhile_tail htail]
      intro c hc
      rw [List.getLast?_append_of_ne_nil _ h] at hc
      exact hlast c hc
    · refine ⟨tail, htail, ?_⟩
      have hslash : ∀ c, (front ++ lockBody p ++ tail ++ slashes).getLast? = some c →
          isTrimmed c = false := by
        intro c hc
        rw [List.getLast?_append_of_ne_nil _ hnone] at hc
        rw [hslashes' c (List.mem_of_getLast? hc)]
        exact slash_not_trimmed
      have hself := dropEndWhile_tail (s := []) (fun c hc => absurd hc List.not_mem_nil) hslash
      rwa [List.append_nil] at hself
  by_cases hdot : ['.', '/'].isPrefixOf (forwardSlashes p.toList) = true
  · -- the leading `./` is dropped by both, and no space stands before it
    obtain ⟨rest, hrest⟩ := List.isPrefixOf_iff_prefix.mp hdot
    have hstrip : stripDotSlash (forwardSlashes p.toList) = rest := by
      unfold stripDotSlash
      rw [if_pos hdot, ← hrest]
      rfl
    have hwhole : forwardSlashes p.toList =
        (['.', '/'] ++ lead) ++ lockBody p ++ tail ++ slashes := by
      rw [← hrest, ← hstrip, hbody]
      simp only [List.append_assoc]
    obtain ⟨tail', htail', heq⟩ := hend (['.', '/'] ++ lead)
    refine ⟨['.', '/'], lead, tail', slashes, ?_, Or.inr rfl, hlead, htail', hslashes', hhead,
      hlast⟩
    have hfront : (forwardSlashes p.toList).dropWhile isTrimmed = forwardSlashes p.toList := by
      rw [← hrest]
      rfl
    unfold trimChars
    rw [hfront, hwhole, heq]
    simp only [List.append_assoc]
  · have hstrip : stripDotSlash (forwardSlashes p.toList) = forwardSlashes p.toList := if_neg hdot
    rw [hstrip] at hbody
    obtain ⟨tail', htail', heq⟩ := hend []
    refine ⟨[], [], tail', slashes, ?_, Or.inl ⟨rfl, rfl⟩, by simp, htail', hslashes', hhead,
      hlast⟩
    have hwhole : forwardSlashes p.toList = lead ++ ([] ++ lockBody p ++ tail ++ slashes) := by
      rw [hbody]
      simp only [List.append_assoc, List.nil_append]
    unfold trimChars
    rw [hwhole, dropWhile_lead hlead, heq]
    · simp only [List.append_assoc, List.nil_append]
    · intro c hc
      refine hhead c ?_
      rw [List.nil_append, List.append_assoc, List.head?_append_of_ne_nil _ h] at hc
      exact hc

/-- What the lock body of a text must be for the scopes to place it by its segments. -/
structure Placed (cs : List Char) : Prop where
  head : ∀ w ws, pathParts cs = w :: ws → w ≠ []
  parent : ['.', '.'] ∉ pathParts cs
  dot : ['.'] ∉ pathParts cs

theorem Lockable.placed {cs : List Char} (h : Lockable cs) : Placed cs :=
  ⟨fun _ _ hparts => ((lockable_iff hparts).mp h).1, h.parent, h.dot⟩

theorem Placed.ne_nil {cs : List Char} (h : Placed cs) : cs ≠ [] := by
  rintro rfl
  exact h.head [] [] rfl rfl

/-- **The location of a text whose lock body can be placed.** -/
theorem scopePath_of_placed {p : String} (h : Placed (lockBody p)) :
    ∃ lead tail, (∀ c ∈ lead, isTrimmed c = true) ∧ (∀ c ∈ tail, isTrimmed c = true) ∧
      (∀ c, (lockBody p).head? = some c → isTrimmed c = false) ∧
      (∀ c, (lockBody p).getLast? = some c → isTrimmed c = false) ∧
      scopePath p =
        joinSegments ((pathParts (lead ++ lockBody p ++ tail)).filter keptSegment) := by
  obtain ⟨dot, lead, tail, slashes, htext, hdot, hlead, htail, hslashes, hhead, hlast⟩ :=
    exists_spelling h.ne_nil
  refine ⟨lead, tail, hlead, htail, hhead, hlast, ?_⟩
  obtain ⟨hfilter, hmem⟩ := filter_parts_slashes (lead ++ lockBody p ++ tail) hslashes
  -- the segments of the whole text
  have hparts : (pathParts (dot ++ (lead ++ lockBody p ++ tail) ++ slashes)).filter keptSegment =
        (pathParts (lead ++ lockBody p ++ tail)).filter keptSegment ∧
      ∀ w ∈ pathParts (dot ++ (lead ++ lockBody p ++ tail) ++ slashes),
        w = ['.'] ∨ w = [] ∨ w ∈ pathParts (lead ++ lockBody p ++ tail) := by
    rcases hdot with ⟨rfl, -⟩ | rfl
    · rw [List.nil_append]
      exact ⟨hfilter, fun w hw => Or.inr ((hmem w hw).symm)⟩
    · have hcons : pathParts (['.', '/'] ++ (lead ++ lockBody p ++ tail) ++ slashes) =
          ['.'] :: pathParts (lead ++ lockBody p ++ tail ++ slashes) := by
        change pathParts (['.'] ++ '/' :: (lead ++ lockBody p ++ tail ++ slashes)) = _
        rw [pathParts_append_slash, pathParts_of_notMem (by decide)]
        rfl
      rw [hcons]
      constructor
      · rw [List.filter_cons_of_neg (by decide), hfilter]
      · intro w hw
        rcases List.mem_cons.mp hw with rfl | hw
        · exact Or.inl rfl
        · exact Or.inr (hmem w hw).symm
  obtain ⟨w, ws, hcons⟩ := List.exists_cons_of_ne_nil (pathParts_ne_nil (lockBody p))
  have hw : w ≠ [] := h.head w ws hcons
  have hkept : (pathParts (lead ++ lockBody p ++ tail)).filter keptSegment ≠ [] := by
    obtain ⟨v, vs, hfirst, hne⟩ : ∃ v vs, pathParts (lead ++ lockBody p ++ tail) = v :: vs ∧
        v ≠ [] := by
      rcases pathParts_between hlead htail hcons with ⟨-, -, hone⟩ | ⟨rest, -, -, hmore⟩
      · exact ⟨_, _, hone, by simp [hw]⟩
      · exact ⟨_, _, hmore, by simp [hw]⟩
    have hmem : v ∈ pathParts (lead ++ lockBody p ++ tail) := hfirst ▸ List.mem_cons_self
    refine List.ne_nil_of_mem (List.mem_filter.mpr ⟨hmem, keptSegment_iff.mpr ⟨hne, ?_⟩⟩)
    rintro rfl
    refine h.dot (mem_parts_between hlead htail (fun c hc => ?_) hmem)
    exact dots_not_trimmed c (List.mem_cons_of_mem _ hc)
  have hscope := scopePath_eq (p := p)
  rw [htext, hparts.1] at hscope
  refine hscope ?_ ?_ hkept
  · rcases hdot with ⟨rfl, rfl⟩ | rfl
    · rw [List.nil_append, List.nil_append, List.append_assoc,
        List.head?_append_of_ne_nil _ h.ne_nil]
      obtain ⟨hslash, ⟨-, heq⟩ | ⟨rest, heq, -⟩⟩ := pathParts_eq_cons hcons
      · rw [heq]
        exact fun hhead => hslash (List.mem_of_mem_head? hhead)
      · rw [heq, List.head?_append_of_ne_nil _ hw]
        exact fun hhead => hslash (List.mem_of_mem_head? hhead)
    · exact fun hhead => absurd (Option.some.inj hhead) (by decide)
  · intro hparent
    rcases hparts.2 _ hparent with heq | heq | hmem
    · exact absurd heq (by decide)
    · exact absurd heq (by decide)
    · exact h.parent (mem_parts_between hlead htail dots_not_trimmed hmem)

/-! ## 3. Locations that take a lock -/

theorem lowerChar_trimmed {c : Char} (h : isTrimmed c = true) : lowerChar c = c := by
  have hnum : c.toNat ≠ 0x212A ∧ ¬ (65 ≤ c.toNat ∧ c.toNat ≤ 90) := by
    simp only [isTrimmed, Bool.or_eq_true, Bool.and_eq_true, decide_eq_true_eq, List.mem_cons,
      List.not_mem_nil, or_false] at h
    omega
  unfold lowerChar
  rw [if_neg hnum.1]
  unfold Char.toLower
  rw [dif_neg]
  rintro ⟨hlow, hhigh⟩
  exact hnum.2 ⟨hlow, hhigh⟩

/-- A prefix that lacks a symbol stands before it. -/
theorem prefix_of_notMem {pre front rest : List Char} {c : Char} (h : pre <+: front ++ c :: rest)
    (hc : c ∉ pre) : pre <+: front := by
  rcases List.prefix_or_prefix_of_prefix h (List.prefix_append front (c :: rest)) with hpre | hfront
  · exact hpre
  · obtain ⟨middle, rfl⟩ := hfront
    have hmiddle := (List.prefix_append_right_inj front).mp h
    cases middle with
    | nil => simp
    | cons d middle =>
      obtain rfl : d = c := (List.cons_prefix_cons.mp hmiddle).1
      exact absurd (List.mem_append_right front List.mem_cons_self) hc

/-- Spaces behind a segment do not make it one of posse's own. -/
theorem isReservedSegment_tail {w tail : List Char} (h : isReservedSegment w = false)
    (htail : ∀ c ∈ tail, isTrimmed c = true) : isReservedSegment (w ++ tail) = false := by
  cases tail with
  | nil => rwa [List.append_nil]
  | cons c tail =>
    have hc : isTrimmed c = true := htail c List.mem_cons_self
    have hmap : (w ++ c :: tail).map lowerChar =
        w.map lowerChar ++ c :: tail.map lowerChar := by
      rw [List.map_append, List.map_cons, lowerChar_trimmed hc]
    have hnames : ∀ name ∈ [".posse".toList, ".posse-worktrees".toList, "posse-worktrees".toList,
        ".posse-".toList], c ∉ name := by
      intro name hname hmem
      have hall : ∀ name ∈ [".posse".toList, ".posse-worktrees".toList, "posse-worktrees".toList,
          ".posse-".toList], ∀ d ∈ name, isTrimmed d = false := by
        simp [isTrimmed]
      rw [hall name hname c hmem] at hc
      cases hc
    have hequal : ∀ name ∈ [".posse".toList, ".posse-worktrees".toList, "posse-worktrees".toList,
        ".posse-".toList], ((w ++ c :: tail).map lowerChar == name) = false := by
      intro name hname
      rw [beq_eq_false_iff_ne, hmap]
      rintro rfl
      exact hnames _ hname (List.mem_append_right _ List.mem_cons_self)
    unfold isReservedSegment at h ⊢
    dsimp only at h ⊢
    rw [Bool.or_eq_false_iff] at h
    rw [hequal _ (by simp), hequal _ (by simp), hequal _ (by simp), Bool.false_or, Bool.false_or,
      Bool.false_or, Bool.eq_false_iff, ne_eq, List.isPrefixOf_iff_prefix, hmap]
    intro hpre
    have hfront := prefix_of_notMem hpre (hnames _ (by simp))
    rw [← List.isPrefixOf_iff_prefix, h.2] at hfront
    cases hfront

/-- **A spelling that takes a lock is at a location that does**, spaces before it apart. -/
theorem lockable_scopePath {p : String} (h : Lockable (lockBody p)) :
    Lockable ((scopePath p).dropWhile isTrimmed) := by
  obtain ⟨lead, tail, hlead, htail, hhead, -, hscope⟩ := scopePath_of_placed h.placed
  obtain ⟨w, ws, hcons⟩ := List.exists_cons_of_ne_nil (pathParts_ne_nil (lockBody p))
  obtain ⟨hw, hdrive, hparent, hdot, hfree⟩ := (lockable_iff hcons).mp h
  have hkept : ∀ {v : List Char}, v ∈ pathParts (lead ++ lockBody p ++ tail) → v ≠ [] →
      keptSegment v = true := by
    intro v hv hne
    refine keptSegment_iff.mpr ⟨hne, ?_⟩
    rintro rfl
    refine hdot (hcons ▸ mem_parts_between hlead htail (fun c hc => ?_) hv)
    exact dots_not_trimmed c (List.mem_cons_of_mem _ hc)
  have hparent' : ['.', '.'] ∉ pathParts (lead ++ lockBody p ++ tail) := fun hmem =>
    hparent (hcons ▸ mem_parts_between hlead htail dots_not_trimmed hmem)
  have hslash : '/' ∉ w := (mem_pathParts (hcons ▸ List.mem_cons_self)).1
  have hfirst : ∀ c, w.head? = some c → isTrimmed c = false := by
    intro c hc
    refine hhead c ?_
    obtain ⟨-, ⟨-, heq⟩ | ⟨rest, heq, -⟩⟩ := pathParts_eq_cons hcons
    · rw [heq, hc]
    · rw [heq, List.head?_append_of_ne_nil _ hw, hc]
  rcases pathParts_between hlead htail hcons with ⟨rfl, hbody, hone⟩ | ⟨rest, hbody, hrest, hmore⟩
  · -- one segment
    have hseg : keptSegment (lead ++ (w ++ tail)) = true :=
      hkept (hone ▸ List.mem_cons_self) (by simp [hw])
    have htrim : (scopePath p).dropWhile isTrimmed = w ++ tail := by
      rw [hscope, hone, List.filter_cons_of_pos hseg, List.filter_nil]
      have hjoin : joinSegments [lead ++ (w ++ tail)] = lead ++ (w ++ tail) := by
        simp [joinSegments]
      rw [hjoin, dropWhile_lead hlead]
      intro c hc
      rw [List.head?_append_of_ne_nil _ hw] at hc
      exact hfirst c hc
    have hsingle : pathParts (w ++ tail) = [w ++ tail] :=
      pathParts_tail (notMem_of_trimmed htail) [] (pathParts_of_notMem hslash)
    rw [htrim, lockable_iff hsingle]
    refine ⟨by simp [hw], fun _ _ _ => rfl, fun hmem => ?_, fun hmem => ?_,
      isReservedSegment_tail hfree htail⟩
    · have hbetween : ['.', '.'] ∈ pathParts ([] ++ w ++ tail) := by
        rw [List.nil_append, hsingle]
        exact hmem
      have hin := mem_parts_between (fun c hc => absurd hc List.not_mem_nil) htail
        dots_not_trimmed hbetween
      rw [pathParts_of_notMem hslash] at hin
      exact hparent hin
    · have hbetween : ['.'] ∈ pathParts ([] ++ w ++ tail) := by
        rw [List.nil_append, hsingle]
        exact hmem
      have hin := mem_parts_between (fun c hc => absurd hc List.not_mem_nil) htail
        (fun c hc => dots_not_trimmed c (List.mem_cons_of_mem _ hc)) hbetween
      rw [pathParts_of_notMem hslash] at hin
      exact hdot hin
  · -- more than one: the first is as it was, and there are others in the lock body
    have hseg : keptSegment (lead ++ w) = true :=
      hkept (hmore ▸ List.mem_cons_self) (by simp [hw])
    have hws : ws ≠ [] := hrest ▸ pathParts_ne_nil rest
    have hothers : ∀ v ∈ (pathParts (rest ++ tail)).filter keptSegment,
        v ∈ pathParts (lead ++ lockBody p ++ tail) ∧ keptSegment v = true := by
      intro v hv
      rw [hmore]
      exact ⟨List.mem_cons_of_mem _ (List.mem_filter.mp hv).1, (List.mem_filter.mp hv).2⟩
    have htrim : (scopePath p).dropWhile isTrimmed =
        joinSegments (w :: (pathParts (rest ++ tail)).filter keptSegment) := by
      rw [hscope, hmore, List.filter_cons_of_pos hseg]
      have hjoin : ∀ segments : List (List Char), joinSegments ((lead ++ w) :: segments) =
          lead ++ joinSegments (w :: segments) := by
        intro segments
        cases segments <;> simp [joinSegments]
      rw [hjoin, dropWhile_lead hlead]
      intro c hc
      refine hfirst c ?_
      cases hsegments : (pathParts (rest ++ tail)).filter keptSegment with
      | nil =>
        rw [hsegments] at hc
        simpa [joinSegments] using hc
      | cons v vs =>
        rw [hsegments] at hc
        have hsplit : joinSegments (w :: v :: vs) = w ++ ('/' :: joinSegments (v :: vs)) := by
          simp [joinSegments]
        rwa [hsplit, List.head?_append_of_ne_nil _ hw] at hc
    have hparts : pathParts (joinSegments (w :: (pathParts (rest ++ tail)).filter keptSegment)) =
        w :: (pathParts (rest ++ tail)).filter keptSegment := by
      refine pathParts_joinSegments (List.cons_ne_nil _ _) fun v hv => ?_
      rcases List.mem_cons.mp hv with rfl | hv
      · exact hslash
      · exact (mem_pathParts (hothers v hv).1).1
    rw [htrim, lockable_iff hparts]
    refine ⟨hw, fun x halpha hx => absurd (hdrive x halpha hx) hws, fun hmem => ?_, fun hmem => ?_,
      hfree⟩
    · rcases List.mem_cons.mp hmem with heq | hmem
      · exact hparent (heq ▸ List.mem_cons_self)
      · exact hparent' (hothers _ hmem).1
    · rcases List.mem_cons.mp hmem with heq | hmem
      · exact hdot (heq ▸ List.mem_cons_self)
      · exact (keptSegment_iff.mp (hothers _ hmem).2).2 rfl

/-! ## 4. The spellings of a location -/

/-- A normal text: segments that both normalizers leave as they are, but for spaces. -/
structure NormalText (cs : List Char) (segments : List (List Char)) : Prop where
  parts : pathParts cs = segments
  noBackslash : '\\' ∉ cs
  kept : ∀ s ∈ segments, keptSegment s = true
  parent : ['.', '.'] ∉ segments

theorem notMem_forwardSlashes (cs : List Char) : '\\' ∉ forwardSlashes cs := by
  unfold forwardSlashes
  rw [List.mem_map]
  rintro ⟨c, -, hc⟩
  split at hc
  case isTrue => exact absurd hc (by decide)
  case isFalse hne => exact hne hc

theorem forwardSlashes_of_notMem {cs : List Char} (h : '\\' ∉ cs) : forwardSlashes cs = cs := by
  have hid : ∀ c ∈ cs, (if c = '\\' then '/' else c) = c := by
    intro c hc
    refine if_neg ?_
    rintro rfl
    exact h hc
  unfold forwardSlashes
  rw [List.map_congr_left hid, List.map_id']

theorem trimChars_subset (cs : List Char) : trimChars cs ⊆ cs := by
  intro c hc
  unfold trimChars dropEndWhile at hc
  have hback := (List.dropWhile_sublist isTrimmed).subset (List.mem_reverse.mp hc)
  exact (List.dropWhile_sublist isTrimmed).subset (List.mem_reverse.mp hback)

/-- A segment without spaces stands in what is left of a text without the spaces before it. -/
theorem mem_parts_dropWhile {cs w : List Char} (hw : ∀ c ∈ w, isTrimmed c = false)
    (h : w ∈ pathParts cs) : w ∈ pathParts (cs.dropWhile isTrimmed) := by
  have hwhole : cs = cs.takeWhile isTrimmed ++ cs.dropWhile isTrimmed ++ [] := by
    rw [List.append_nil, List.takeWhile_append_dropWhile]
  rw [hwhole] at h
  exact mem_parts_between (fun c hc => List.mem_takeWhile_imp hc)
    (fun c hc => absurd hc List.not_mem_nil) hw h

theorem mem_joinSegments {segments : List (List Char)} {c : Char}
    (h : c ∈ joinSegments segments) : c = '/' ∨ ∃ s ∈ segments, c ∈ s := by
  induction segments with
  | nil => simp [joinSegments] at h
  | cons s rest ih =>
    cases rest with
    | nil =>
      have hjoin : joinSegments [s] = s := by simp [joinSegments]
      rw [hjoin] at h
      exact Or.inr ⟨s, List.mem_cons_self, h⟩
    | cons t rest =>
      have hjoin : joinSegments (s :: t :: rest) = s ++ '/' :: joinSegments (t :: rest) := by
        simp [joinSegments]
      rw [hjoin, List.mem_append, List.mem_cons] at h
      rcases h with h | h | h
      · exact Or.inr ⟨s, List.mem_cons_self, h⟩
      · exact Or.inl h
      · refine (ih h).imp id ?_
        rintro ⟨u, hu, hc⟩
        exact ⟨u, List.mem_cons_of_mem s hu, hc⟩

theorem not_lockable_of_head {cs : List Char} (h : cs = [] ∨ cs.head? = some '/') :
    ¬ Lockable (cs.dropWhile isTrimmed) := by
  rcases h with rfl | hhead
  · exact fun h => h.nonempty rfl
  · intro h
    cases cs with
    | nil => cases hhead
    | cons c cs =>
      obtain rfl : c = '/' := Option.some.inj hhead
      rw [List.dropWhile_cons_of_neg (by rw [slash_not_trimmed]; exact Bool.false_ne_true)] at h
      exact h.relative rfl

/-- **The location of a lockable text is normal.** -/
theorem normalText_scopePath {p : String} (h : Lockable ((scopePath p).dropWhile isTrimmed)) :
    ∃ segments, NormalText (scopePath p) segments := by
  have hdots : ¬ Lockable (['.'].dropWhile isTrimmed) := fun h => h.dot (by decide)
  unfold scopePath normPathChars at h ⊢
  have hback : '\\' ∉ trimChars (forwardSlashes p.toList) := fun hmem =>
    notMem_forwardSlashes _ (trimChars_subset _ hmem)
  generalize trimChars (forwardSlashes p.toList) = t at h hback ⊢
  by_cases hempty : t = []
  · rw [hempty] at h
    exact absurd h hdots
  unfold posixNormalize at h ⊢
  rw [if_neg hempty] at h ⊢
  dsimp only at h ⊢
  by_cases habsolute : t.head? = some '/'
  · -- an absolute path stays one
    exfalso
    have hbeq : (t.head? == some '/') = true := by simpa using habsolute
    rw [hbeq] at h
    have hslash : ∀ rest : List Char, ¬ Lockable
        ((stripTrailingSlashes (stripDotSlash ('/' :: rest))).dropWhile isTrimmed) := by
      intro rest
      have hstrip : stripDotSlash ('/' :: rest) = '/' :: rest := rfl
      rw [hstrip]
      refine not_lockable_of_head ?_
      obtain ⟨s, hs, -, -⟩ := exists_dropEndWhile (· = '/') ('/' :: rest)
      cases hcut : dropEndWhile (· = '/') ('/' :: rest) with
      | nil => exact Or.inl hcut
      | cons c cs =>
        rw [hcut] at hs
        refine Or.inr ?_
        unfold stripTrailingSlashes
        rw [hcut]
        exact congrArg some (List.cons.inj hs).1.symm
    by_cases hbody : joinSegments (normalizeSegments (!true) (pathParts t)) = []
    · rw [if_pos hbody, if_pos rfl] at h
      exact hslash [] h
    · rw [if_neg hbody, if_pos rfl, List.append_assoc] at h
      exact hslash _ h
  · have hbeq : (t.head? == some '/') = false := by simpa using habsolute
    rw [hbeq] at h ⊢
    have hall : ∀ s ∈ normalizeSegments (!false) (pathParts t), '/' ∉ s ∧ keptSegment s = true :=
      fun s hs => ⟨(mem_pathParts (mem_normalizeSegments hs).1).1, (mem_normalizeSegments hs).2⟩
    by_cases hbody : joinSegments (normalizeSegments (!false) (pathParts t)) = []
    · exfalso
      have hdot : stripTrailingSlashes (stripDotSlash ['.']) = ['.'] := by decide
      rw [if_pos hbody, if_neg Bool.false_ne_true] at h
      split_ifs at h
      · exact absurd h (not_lockable_of_head (Or.inl (by decide)))
      · rw [hdot] at h
        exact hdots h
    · have hne : normalizeSegments (!false) (pathParts t) ≠ [] := fun hnil =>
        hbody (by rw [hnil]; rfl)
      rw [if_neg hbody, if_neg Bool.false_ne_true, List.nil_append,
        strip_joinSegments hne hall (by split_ifs <;> simp)] at h ⊢
      have hparts := pathParts_joinSegments hne fun s hs => (hall s hs).1
      refine ⟨_, hparts, ?_, fun s hs => (hall s hs).2, fun hparent => ?_⟩
      · intro hmem
        rcases mem_joinSegments hmem with heq | ⟨s, hs, hc⟩
        · exact absurd heq (by decide)
        · exact hback ((mem_pathParts (mem_normalizeSegments hs).1).2 hc)
      · refine h.parent (mem_parts_dropWhile dots_not_trimmed ?_)
        rw [hparts]
        exact hparent

theorem NormalText.join {cs : List Char} {segments : List (List Char)}
    (h : NormalText cs segments) : joinSegments segments = cs := by
  rw [← h.parts]
  exact joinSegments_pathParts cs

/-- **Other spellings of a normal text**: with `./` before it, once or twice, and slashes behind. -/
theorem scopePath_respelled {p : String} {cs : List Char} {segments : List (List Char)}
    (h : NormalText cs segments) {dots : List Char} (slashes : List Char)
    (hdots : dots = ['.', '/'] ∨ dots = ['.', '/', '.', '/']) (hslashes : ∀ c ∈ slashes, c = '/')
    (htext : trimChars (forwardSlashes p.toList) = dots ++ (cs ++ slashes)) :
    scopePath p = cs := by
  have hsegments : segments ≠ [] := h.parts ▸ pathParts_ne_nil cs
  obtain ⟨hfilter, hmem⟩ := filter_parts_slashes cs hslashes
  rw [h.parts, List.filter_eq_self.mpr h.kept] at hfilter
  have hdot : ∀ rest : List Char, pathParts ('.' :: '/' :: rest) = ['.'] :: pathParts rest := by
    intro rest
    change pathParts (['.'] ++ '/' :: rest) = _
    rw [pathParts_append_slash, pathParts_of_notMem (by decide)]
    rfl
  have hparts : (pathParts (dots ++ (cs ++ slashes))).filter keptSegment = segments ∧
      ['.', '.'] ∉ pathParts (dots ++ (cs ++ slashes)) := by
    have hbehind : ['.', '.'] ∉ pathParts (cs ++ slashes) := by
      intro hparent
      rcases hmem _ hparent with hin | hnil
      · exact h.parent (h.parts ▸ hin)
      · exact absurd hnil (by decide)
    have hne : ['.', '.'] ≠ ['.'] := by decide
    rcases hdots with rfl | rfl
    · change (pathParts ('.' :: '/' :: (cs ++ slashes))).filter keptSegment = segments ∧
        ['.', '.'] ∉ pathParts ('.' :: '/' :: (cs ++ slashes))
      rw [hdot, List.filter_cons_of_neg (by decide), hfilter]
      exact ⟨rfl, fun hin => (List.mem_cons.mp hin).elim hne hbehind⟩
    · change (pathParts ('.' :: '/' :: '.' :: '/' :: (cs ++ slashes))).filter keptSegment =
        segments ∧ ['.', '.'] ∉ pathParts ('.' :: '/' :: '.' :: '/' :: (cs ++ slashes))
      rw [hdot, hdot, List.filter_cons_of_neg (by decide), List.filter_cons_of_neg (by decide),
        hfilter]
      exact ⟨rfl, fun hin => (List.mem_cons.mp hin).elim hne fun hin =>
        (List.mem_cons.mp hin).elim hne hbehind⟩
  have hscope := scopePath_eq (p := p)
  rw [htext, hparts.1, h.join] at hscope
  refine hscope ?_ hparts.2 hsegments
  rcases hdots with rfl | rfl
  · exact fun hhead => absurd (Option.some.inj hhead) (by decide)
  · exact fun hhead => absurd (Option.some.inj hhead) (by decide)

theorem dropEndWhile_front {p : Char → Bool} {front cs : List Char}
    (hlast : ∀ c, front.getLast? = some c → p c = false) :
    dropEndWhile p (front ++ cs) = front ++ dropEndWhile p cs := by
  obtain ⟨s, hs, hall, hend⟩ := exists_dropEndWhile p cs
  have hwhole : front ++ cs = (front ++ dropEndWhile p cs) ++ s := by
    rw [List.append_assoc, ← hs]
  rw [hwhole, dropEndWhile_tail hall]
  intro c hc
  by_cases hnil : dropEndWhile p cs = []
  · rw [hnil, List.append_nil] at hc
    exact hlast c hc
  · rw [List.getLast?_append_of_ne_nil _ hnil] at hc
    exact hend c hc

theorem getLast?_normalText {cs : List Char} {segments : List (List Char)}
    (h : NormalText cs segments) : ∀ c, cs.getLast? = some c → decide (c = '/') = false := by
  have hne : segments ≠ [] := h.parts ▸ pathParts_ne_nil cs
  refine getLast?_ne_slash (h.parts.trans (List.dropLast_append_getLast hne).symm) ?_
  exact (keptSegment_iff.mp (h.kept _ (List.getLast_mem hne))).1

/-- **A lockable location has a spelling that is refused.** -/
theorem exists_refused_spelling {cs : List Char} {segments : List (List Char)}
    (h : NormalText cs segments) (hne : cs ≠ []) :
    ∃ z, scopePath z = cs ∧ ¬ Lockable (lockBody z) := by
  have htext : (String.ofList (['.', '/', '.', '/'] ++ (cs ++ ['/']))).toList =
      ['.', '/', '.', '/'] ++ (cs ++ ['/']) := String.toList_ofList
  have hback : '\\' ∉ ['.', '/', '.', '/'] ++ (cs ++ ['/']) := by
    simp [h.noBackslash]
  refine ⟨String.ofList (['.', '/', '.', '/'] ++ (cs ++ ['/'])), ?_, fun hlock => ?_⟩
  · refine scopePath_respelled h ['/'] (Or.inr rfl) (by simp) ?_
    rw [htext, forwardSlashes_of_notMem hback]
    have htrim := trimChars_between [] (['.', '/', '.', '/'] ++ (cs ++ ['/'])) []
      (by simp) (by simp) (by simp)
      (fun c hc => by obtain rfl := Option.some.inj hc; decide)
      (fun c hc => by
        rw [← List.append_assoc, List.getLast?_append_of_ne_nil _ (by simp)] at hc
        obtain rfl := Option.some.inj hc
        decide)
    rwa [List.append_nil, List.nil_append] at htrim
  · -- one `./` is dropped, the other is refused
    refine hlock.dot ?_
    have hcut : stripTrailingSlashes ('.' :: '/' :: (cs ++ ['/'])) = '.' :: '/' :: cs := by
      change dropEndWhile (· = '/') (['.', '/'] ++ cs ++ ['/']) = ['.', '/'] ++ cs
      refine dropEndWhile_tail (by simp) fun c hc => ?_
      rw [List.getLast?_append_of_ne_nil _ hne] at hc
      exact getLast?_normalText h c hc
    have hbody : lockBody (String.ofList (['.', '/', '.', '/'] ++ (cs ++ ['/']))) =
        ['.'] ++ '/' :: dropEndWhile isTrimmed cs := by
      unfold lockBody
      rw [htext, forwardSlashes_of_notMem hback]
      change trimChars (stripTrailingSlashes ('.' :: '/' :: (cs ++ ['/']))) = _
      rw [hcut]
      change dropEndWhile isTrimmed (['.', '/'] ++ cs) = _
      rw [dropEndWhile_front]
      · rfl
      · intro c hc
        obtain rfl := Option.some.inj hc
        decide
    rw [hbody, pathParts_append_slash, pathParts_of_notMem (by decide)]
    exact List.mem_append_left _ List.mem_cons_self

/-- **A lockable location has a spelling that takes a lock.** -/
theorem exists_lockable_spelling {cs : List Char} {segments : List (List Char)}
    (h : NormalText cs segments) (hlock : Lockable (cs.dropWhile isTrimmed)) :
    ∃ y, scopePath y = cs ∧ Lockable (lockBody y) := by
  have hwhole : cs = cs.takeWhile isTrimmed ++ cs.dropWhile isTrimmed :=
    (List.takeWhile_append_dropWhile).symm
  have hlastEq : cs.getLast? = (cs.dropWhile isTrimmed).getLast? := by
    conv_lhs => rw [hwhole]
    exact List.getLast?_append_of_ne_nil _ hlock.nonempty
  have hne : cs ≠ [] := by
    rintro rfl
    exact hlock.nonempty rfl
  by_cases hend : ∀ c, cs.getLast? = some c → isTrimmed c = false
  · -- the text itself, behind a `./`
    have htext : (String.ofList (['.', '/'] ++ cs)).toList = ['.', '/'] ++ cs :=
      String.toList_ofList
    have hback : '\\' ∉ ['.', '/'] ++ cs := by
      simp [h.noBackslash]
    refine ⟨String.ofList (['.', '/'] ++ cs), ?_, ?_⟩
    · refine scopePath_respelled h [] (Or.inl rfl) (by simp) ?_
      rw [htext, forwardSlashes_of_notMem hback, List.append_nil]
      have htrim := trimChars_between [] (['.', '/'] ++ cs) [] (by simp)
        (by simp) (by simp)
        (fun c hc => by obtain rfl := Option.some.inj hc; decide)
        (fun c hc => by
          rw [List.getLast?_append_of_ne_nil _ hne] at hc
          exact hend c hc)
      rwa [List.append_nil, List.nil_append] at htrim
    · have hcut : stripTrailingSlashes cs = cs := by
        have hself := dropEndWhile_tail (s := []) (fun c hc => absurd hc List.not_mem_nil)
          (getLast?_normalText h)
        rwa [List.append_nil] at hself
      have htrim : dropEndWhile isTrimmed (cs.dropWhile isTrimmed) = cs.dropWhile isTrimmed := by
        have hself := dropEndWhile_tail (s := []) (p := isTrimmed) (l := cs.dropWhile isTrimmed)
          (fun c hc => absurd hc List.not_mem_nil) (fun c hc => hend c (hlastEq.trans hc))
        rwa [List.append_nil] at hself
      have hbody : lockBody (String.ofList (['.', '/'] ++ cs)) = cs.dropWhile isTrimmed := by
        unfold lockBody
        rw [htext, forwardSlashes_of_notMem hback]
        change trimChars (stripTrailingSlashes cs) = _
        rw [hcut]
        exact htrim
      rw [hbody]
      exact hlock
  · -- a location that ends with a space: a slash and another space behind it keep the first
    push Not at hend
    obtain ⟨last, hlast, hspace⟩ := hend
    have htext : (String.ofList (['.', '/'] ++ (cs ++ ['/', ' ']))).toList =
        ['.', '/'] ++ (cs ++ ['/', ' ']) := String.toList_ofList
    have hback : '\\' ∉ ['.', '/'] ++ (cs ++ ['/', ' ']) := by
      simp [h.noBackslash]
    refine ⟨String.ofList (['.', '/'] ++ (cs ++ ['/', ' '])), ?_, ?_⟩
    · refine scopePath_respelled h ['/'] (Or.inl rfl) (by simp) ?_
      rw [htext, forwardSlashes_of_notMem hback]
      have htrim := trimChars_between [] (['.', '/'] ++ (cs ++ ['/'])) [' '] (by simp)
        (by simp [isTrimmed]) (by simp)
        (fun c hc => by obtain rfl := Option.some.inj hc; decide)
        (fun c hc => by
          rw [← List.append_assoc, List.getLast?_append_of_ne_nil _ (by simp)] at hc
          obtain rfl := Option.some.inj hc
          decide)
      rw [List.nil_append] at htrim
      rw [← htrim]
      simp only [List.append_assoc, List.cons_append, List.nil_append]
    · have hcut : stripTrailingSlashes (cs ++ ['/', ' ']) = cs ++ ['/', ' '] := by
        have hself := dropEndWhile_tail (s := []) (p := fun c => decide (c = '/'))
          (l := cs ++ ['/', ' ']) (fun c hc => absurd hc List.not_mem_nil) (fun c hc => by
            rw [List.getLast?_append_of_ne_nil _ (by simp)] at hc
            obtain rfl := Option.some.inj hc
            decide)
        rwa [List.append_nil] at hself
      have hfront : (cs ++ ['/', ' ']).dropWhile isTrimmed =
          cs.dropWhile isTrimmed ++ ['/', ' '] := by
        conv_lhs => rw [hwhole, List.append_assoc]
        refine dropWhile_lead (fun c hc => List.mem_takeWhile_imp hc) fun c hc => ?_
        rw [List.head?_append_of_ne_nil _ hlock.nonempty] at hc
        have hnot := List.head?_dropWhile_not isTrimmed cs
        rw [hc] at hnot
        exact hnot
      have hbody : lockBody (String.ofList (['.', '/'] ++ (cs ++ ['/', ' ']))) =
          cs.dropWhile isTrimmed ++ '/' :: [] := by
        unfold lockBody
        rw [htext, forwardSlashes_of_notMem hback]
        change trimChars (stripTrailingSlashes (cs ++ ['/', ' '])) = _
        rw [hcut, trimChars, hfront]
        have hsplit : cs.dropWhile isTrimmed ++ ['/', ' '] =
            (cs.dropWhile isTrimmed ++ ['/']) ++ [' '] := by
          rw [List.append_assoc]
          rfl
        rw [hsplit]
        refine dropEndWhile_tail (by simp [isTrimmed]) fun c hc => ?_
        rw [List.getLast?_append_of_ne_nil _ (by simp)] at hc
        obtain rfl := Option.some.inj hc
        decide
      obtain ⟨w, ws, hcons⟩ := List.exists_cons_of_ne_nil
        (pathParts_ne_nil (cs.dropWhile isTrimmed))
      obtain ⟨hw, hdrive, hparent, hdot, hfree⟩ := (lockable_iff hcons).mp hlock
      have hparts : pathParts (cs.dropWhile isTrimmed ++ '/' :: []) = w :: (ws ++ [[]]) := by
        rw [pathParts_append_slash, hcons]
        rfl
      rw [hbody, lockable_iff hparts]
      refine ⟨hw, fun x halpha hx => ?_, ?_, ?_, hfree⟩
      · -- a drive alone does not end with a space
        exfalso
        have hws := hdrive x halpha hx
        obtain ⟨-, ⟨-, heq⟩ | ⟨rest, -, hrest⟩⟩ := pathParts_eq_cons hcons
        · rw [hlastEq, heq, hx] at hlast
          have hcolon : last = ':' := (Option.some.inj hlast).symm
          rw [hcolon] at hspace
          revert hspace
          decide
        · exact pathParts_ne_nil rest (hrest.trans hws)
      · rw [List.mem_cons, List.mem_append, List.mem_singleton]
        rintro (heq | hin | hnil)
        · exact hparent (heq ▸ List.mem_cons_self)
        · exact hparent (List.mem_cons_of_mem w hin)
        · exact absurd hnil (by decide)
      · rw [List.mem_cons, List.mem_append, List.mem_singleton]
        rintro (heq | hin | hnil)
        · exact hdot (heq ▸ List.mem_cons_self)
        · exact hdot (List.mem_cons_of_mem w hin)
        · exact absurd hnil (by decide)

/-! ## 5. When the lock path is canonical -/

/-- A text spelled without empty, `.` and `..` segments, a leading `./`, slashes at the end and
spaces around it apart. -/
def PlainSpelling (p : String) : Prop :=
  ∀ w ∈ pathParts (lockBody p), w ≠ [] ∧ w ≠ ['.'] ∧ w ≠ ['.', '.']

theorem PlainSpelling.placed {p : String} (h : PlainSpelling p) : Placed (lockBody p) := by
  refine ⟨fun w ws hparts => (h w (hparts ▸ List.mem_cons_self)).1, fun hmem => ?_, fun hmem => ?_⟩
  · exact (h _ hmem).2.2 rfl
  · exact (h _ hmem).2.1 rfl

/-- **Plainly spelled, a lock path is made of the location.** -/
theorem lockBody_of_plain {p : String} (h : PlainSpelling p) :
    lockBody p = trimChars (scopePath p) := by
  obtain ⟨lead, tail, hlead, htail, hhead, hlast, hscope⟩ := scopePath_of_placed h.placed
  have hsplit : pathParts (lockBody p) = (pathParts (lockBody p)).dropLast ++
      [(pathParts (lockBody p)).getLast (pathParts_ne_nil _)] :=
    (List.dropLast_append_getLast _).symm
  have hnonempty : ∀ w ∈ pathParts (lead ++ lockBody p ++ tail), w ≠ [] := by
    have hbehind : ∀ w ∈ pathParts (lockBody p ++ tail), w ≠ [] := by
      intro w hw
      rw [pathParts_tail (notMem_of_trimmed htail) _ hsplit] at hw
      rcases List.mem_append.mp hw with hw | hw
      · exact (h w (List.mem_of_mem_dropLast hw)).1
      · rw [List.mem_singleton.mp hw]
        exact fun hnil => (h _ (List.getLast_mem _)).1 (List.append_eq_nil_iff.mp hnil).1
    obtain ⟨v, vs, hcons⟩ := List.exists_cons_of_ne_nil (pathParts_ne_nil (lockBody p ++ tail))
    intro w hw
    rw [List.append_assoc, pathParts_lead (notMem_of_trimmed hlead) hcons] at hw
    rcases List.mem_cons.mp hw with rfl | hw
    · have hv := hbehind v (hcons ▸ List.mem_cons_self)
      exact fun hnil => hv (List.append_eq_nil_iff.mp hnil).2
    · exact hbehind w (hcons ▸ List.mem_cons_of_mem v hw)
  have hkept : (pathParts (lead ++ lockBody p ++ tail)).filter keptSegment =
      pathParts (lead ++ lockBody p ++ tail) := by
    refine List.filter_eq_self.mpr fun w hw => keptSegment_iff.mpr ⟨hnonempty w hw, ?_⟩
    rintro rfl
    have hin := mem_parts_between hlead htail
      (fun c hc => dots_not_trimmed c (List.mem_cons_of_mem _ hc)) hw
    exact (h _ hin).2.1 rfl
  rw [hscope, hkept, joinSegments_pathParts,
    trimChars_between _ _ _ hlead htail h.placed.ne_nil hhead hlast]

/-- Plain spellings of one location have one lock path. -/
theorem lockPath_of_plain {p q : String} (hp : PlainSpelling p) (hq : PlainSpelling q)
    (h : scopePath p = scopePath q) : normalizeLockPath p = normalizeLockPath q := by
  have hbody : lockBody p = lockBody q := by
    rw [lockBody_of_plain hp, lockBody_of_plain hq, h]
  rw [normalizeLockPath_eq, normalizeLockPath_eq, hbody]

theorem lockable_src : Lockable ((scopePath "src/a.js").dropWhile isTrimmed) := by
  constructor <;> decide

end PosseClient
