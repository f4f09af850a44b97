/-
# Tree-sitter calls at SCIP call sites

`treesitterCallsAtScipSites` of `call-site-dedupe.js`: each SCIP call drops at most one tree-sitter
call of its callee, the innermost that overlaps it, or else the first on its line.

* `treesitterCallsAtScipSites`: the calls of both sources, and the loop over those of SCIP.
* `OwnExpression`: the innermost call expression around an identifier.
* `dedupe_drops_own_expressions`: the own expressions are what is dropped, where a call that
  overlaps an identifier contains it; in any list a drop is charged to one SCIP call.
* `call_inside_identifier_dropped`: without that condition another call can go.

Offsets and lines are integers, as `callSiteOffset` leaves them.
-/
import Mathlib

namespace PosseClient

/-! ## 1. The source -/

/-- A call site; `claims` is `claims !== false`. -/
structure CallSite where
  start : Option ℤ := none
  stop : Option ℤ := none
  line : Option ℤ := none
  name : Option String := none
  claims : Bool := true
  deriving DecidableEq, Repr

inductive EdgeSource
  | treesitter | scip | other
  deriving DecidableEq, Repr

/-- A merge candidate; `isCall` is `kind === "calls"`. -/
structure MergeCandidate where
  isCall : Bool := false
  source : EdgeSource := .other
  site : CallSite := {}
  deriving DecidableEq, Repr

/-- The last part of a name after `split(/\.|::|#|->/)`, where `segment` has what came so far. -/
def lastSegment (segment : List Char) : List Char → List Char
  | [] => segment
  | '.' :: rest => lastSegment [] rest
  | ':' :: ':' :: rest => lastSegment [] rest
  | '#' :: rest => lastSegment [] rest
  | '-' :: '>' :: rest => lastSegment [] rest
  | c :: rest => lastSegment (segment ++ [c]) rest

/-- `calleeName`. -/
def calleeName (name : Option String) : List Char :=
  match name with
  | none => []
  | some name =>
    let segment := lastSegment [] name.toList
    if segment.getLast? = some '!' then segment.dropLast else segment

example : calleeName (some "std::assert_eq!") = "assert_eq".toList := by decide

/-- `compareKnownFirst`. -/
def compareKnownFirst : Option ℤ → Option ℤ → Ordering
  | none, none => .eq
  | none, some _ => .gt
  | some _, none => .lt
  | some left, some right => compare left right

section Source

variable (candidates : List MergeCandidate)

/-- `candidates[index]`. -/
def candidateAt (index : ℕ) : MergeCandidate := candidates.getD index {}

def siteAt (index : ℕ) : CallSite := (candidateAt candidates index).site

def calleeAt (index : ℕ) : List Char := calleeName (siteAt candidates index).name

/-- A call of tree-sitter that can be matched. -/
def isTreesitterCall (index : ℕ) : Bool :=
  (candidateAt candidates index).isCall && (candidateAt candidates index).source == .treesitter &&
    calleeAt candidates index != []

/-- A call of SCIP that claims. -/
def isClaimingCall (index : ℕ) : Bool :=
  (candidateAt candidates index).isCall && (candidateAt candidates index).source == .scip &&
    (siteAt candidates index).claims && calleeAt candidates index != []

/-- `treesitterByCallee.get(callee)`. -/
def treesitterByCallee (callee : List Char) : List ℕ :=
  (List.range candidates.length).filter fun index =>
    isTreesitterCall candidates index && calleeAt candidates index == callee

/-- The comparison of SCIP calls. -/
def compareScipCalls (left right : ℕ) : Ordering :=
  (compareKnownFirst (siteAt candidates left).start (siteAt candidates right).start).then <|
    (compareKnownFirst (siteAt candidates left).line (siteAt candidates right).line).then <|
      compare left right

/-- `scipCalls`. -/
def scipCalls : List ℕ :=
  ((List.range candidates.length).filter (isClaimingCall candidates)).mergeSort fun left right =>
    (compareScipCalls candidates left right).isLE

/-- A call that overlaps, with its `span` and its start. -/
structure OverlappingCall where
  index : ℕ
  span : ℤ
  start : ℤ

/-- The calls that overlap a known range and are not dropped. -/
def overlappingCalls (dropped : List Bool) (start stop : ℤ) (treesitter : List ℕ) :
    List OverlappingCall :=
  treesitter.filterMap fun index =>
    match (siteAt candidates index).start, (siteAt candidates index).stop with
    | some callStart, some callStop =>
      if dropped.getD index false = false ∧ callStart < stop ∧ start < callStop then
        some ⟨index, callStop - callStart, callStart⟩
      else none
    | _, _ => none

/-- The better of the best call so far and the next. -/
def innerCall (best : Option OverlappingCall) (call : OverlappingCall) : Option OverlappingCall :=
  match best with
  | none => some call
  | some best =>
    if call.span < best.span ∨ (call.span = best.span ∧ best.start < call.start) then some call
    else some best

/-- The innermost call that overlaps a SCIP call. -/
def innermostCall (dropped : List Bool) (scip : CallSite) (treesitter : List ℕ) : Option ℕ :=
  match scip.start, scip.stop with
  | some start, some stop =>
    ((overlappingCalls candidates dropped start stop treesitter).foldl innerCall none).map (·.index)
  | _, _ => none

/-- The first call on the line of a SCIP call. -/
def callOnLine (dropped : List Bool) (scip : CallSite) (treesitter : List ℕ) : Option ℕ :=
  match scip.line with
  | none => none
  | some line => treesitter.find? fun index =>
      !dropped.getD index false && decide ((siteAt candidates index).line = some line)

/-- What a SCIP call matches. -/
def matchedCall (dropped : List Bool) (scipIndex : ℕ) : Option ℕ :=
  let treesitter := treesitterByCallee candidates (calleeAt candidates scipIndex)
  let scip := siteAt candidates scipIndex
  match innermostCall candidates dropped scip treesitter with
  | some index => some index
  | none => callOnLine candidates dropped scip treesitter

/-- The body of the loop over the SCIP calls. -/
def dropMatched (dropped : List Bool) (scipIndex : ℕ) : List Bool :=
  match matchedCall candidates dropped scipIndex with
  | none => dropped
  | some index => dropped.set index true

/-- `treesitterCallsAtScipSites`. -/
def treesitterCallsAtScipSites : List Bool :=
  (scipCalls candidates).foldl (dropMatched candidates) (candidates.map fun _ => false)

end Source

/-! ## 2. What a SCIP call matches -/

section Matching

variable {candidates : List MergeCandidate} {dropped : List Bool}

/-- The site has both offsets. -/
def HasRange (site : CallSite) (start stop : ℤ) : Prop :=
  site.start = some start ∧ site.stop = some stop

theorem HasRange.unique {site : CallSite} {a b c d : ℤ} (h : HasRange site a b)
    (h' : HasRange site c d) : a = c ∧ b = d :=
  ⟨Option.some.inj (h.1.symm.trans h'.1), Option.some.inj (h.2.symm.trans h'.2)⟩

/-- Two sites overlap. -/
def SitesOverlap (left right : CallSite) : Prop :=
  ∃ a b c d, HasRange left a b ∧ HasRange right c d ∧ a < d ∧ c < b

/-- Two sites are on one line. -/
def SameLine (left right : CallSite) : Prop :=
  ∃ line, left.line = some line ∧ right.line = some line

theorem mem_treesitterByCallee {callee : List Char} {index : ℕ} :
    index ∈ treesitterByCallee candidates callee ↔
      index < candidates.length ∧ isTreesitterCall candidates index = true ∧
        calleeAt candidates index = callee := by
  rw [treesitterByCallee, List.mem_filter, List.mem_range, Bool.and_eq_true, beq_iff_eq]

theorem mem_overlappingCalls {start stop : ℤ} {treesitter : List ℕ} {call : OverlappingCall} :
    call ∈ overlappingCalls candidates dropped start stop treesitter ↔
      call.index ∈ treesitter ∧ dropped.getD call.index false = false ∧
        HasRange (siteAt candidates call.index) call.start (call.start + call.span) ∧
          call.start < stop ∧ start < call.start + call.span := by
  rw [overlappingCalls, List.mem_filterMap]
  constructor
  · rintro ⟨index, hindex, hcall⟩
    split at hcall
    case h_1 a b ha hb =>
      split at hcall
      case isTrue hcond =>
        cases hcall
        have hsum : a + (b - a) = b := by omega
        rw [hsum]
        exact ⟨hindex, hcond.1, ⟨ha, hb⟩, hcond.2.1, hcond.2.2⟩
      case isFalse => cases hcall
    case h_2 => cases hcall
  · rintro ⟨hindex, hdropped, hrange, hstart, hstop⟩
    refine ⟨call.index, hindex, ?_⟩
    rw [hrange.1, hrange.2]
    dsimp only
    rw [if_pos ⟨hdropped, hstart, hstop⟩]
    have hspan : call.start + call.span - call.start = call.span := by omega
    rw [hspan]

/-- **The best of a list** is one of it, and no call of it has a smaller span. -/
theorem foldl_innerCall : ∀ (calls : List OverlappingCall) (best : Option OverlappingCall),
    (∀ call, calls.foldl innerCall best = some call → best = some call ∨ call ∈ calls) ∧
      ∀ other, best = some other ∨ other ∈ calls →
        ∃ call, calls.foldl innerCall best = some call ∧ call.span ≤ other.span
  | [], best => by
    refine ⟨fun call h => Or.inl h, ?_⟩
    rintro other (h | h)
    · exact ⟨other, h, le_rfl⟩
    · cases h
  | next :: calls, best => by
    obtain ⟨hfrom, hleast⟩ := foldl_innerCall calls (innerCall best next)
    have hbetter : ∀ other, best = some other ∨ other = next →
        ∃ call, innerCall best next = some call ∧ call.span ≤ other.span := by
      intro other hother
      unfold innerCall
      cases best with
      | none =>
        rcases hother with h | rfl
        · cases h
        · exact ⟨_, rfl, le_rfl⟩
      | some best =>
        dsimp only
        split
        case isTrue hinner =>
          refine ⟨next, rfl, ?_⟩
          rcases hother with h | rfl
          · cases h
            omega
          · exact le_rfl
        case isFalse houter =>
          refine ⟨best, rfl, ?_⟩
          rcases hother with h | rfl
          · cases h
            exact le_rfl
          · omega
    constructor
    · intro call hcall
      rcases hfrom call hcall with hinner | hmem
      · have hone : best = some call ∨ call = next := by
          unfold innerCall at hinner
          split at hinner
          · exact Or.inr (Option.some.inj hinner).symm
          · split at hinner
            · exact Or.inr (Option.some.inj hinner).symm
            · exact Or.inl hinner
        rcases hone with hbest | rfl
        · exact Or.inl hbest
        · exact Or.inr List.mem_cons_self
      · exact Or.inr (List.mem_cons_of_mem _ hmem)
    · intro other hother
      have hcase : (best = some other ∨ other = next) ∨ other ∈ calls := by
        rcases hother with hbest | hmem
        · exact Or.inl (Or.inl hbest)
        · rcases List.mem_cons.mp hmem with rfl | hmem
          · exact Or.inl (Or.inr rfl)
          · exact Or.inr hmem
      rcases hcase with hhere | hmem
      · obtain ⟨inner, hinner, hle⟩ := hbetter other hhere
        obtain ⟨call, hcall, hle'⟩ := hleast inner (Or.inl hinner)
        exact ⟨call, hcall, hle'.trans hle⟩
      · exact hleast other (Or.inr hmem)

/-- **The innermost call** that overlaps and is not dropped. -/
theorem innermostCall_spec {scip : CallSite} {treesitter : List ℕ} {index : ℕ}
    (h : innermostCall candidates dropped scip treesitter = some index) :
    index ∈ treesitter ∧ dropped.getD index false = false ∧
      SitesOverlap (siteAt candidates index) scip := by
  unfold innermostCall at h
  split at h
  case h_1 start stop hstart hstop =>
    obtain ⟨call, hcall, rfl⟩ := Option.map_eq_some_iff.mp h
    rcases (foldl_innerCall _ none).1 call hcall with hnone | hmem
    · cases hnone
    · obtain ⟨hindex, hdropped, hrange, hlt, hgt⟩ := mem_overlappingCalls.mp hmem
      exact ⟨hindex, hdropped, _, _, _, _, hrange, ⟨hstart, hstop⟩, hlt, hgt⟩
  case h_2 => cases h

/-- A call that overlaps and is not dropped lets one be matched that is no longer. -/
theorem innermostCall_least {scip : CallSite} {treesitter : List ℕ} {other : ℕ} {a b c d : ℤ}
    (hother : other ∈ treesitter) (hdropped : dropped.getD other false = false)
    (hrange : HasRange (siteAt candidates other) a b) (hscip : HasRange scip c d) (hlt : a < d)
    (hgt : c < b) :
    ∃ index a' b', innermostCall candidates dropped scip treesitter = some index ∧
      HasRange (siteAt candidates index) a' b' ∧ a' < d ∧ c < b' ∧ b' - a' ≤ b - a := by
  have hsum : a + (b - a) = b := by omega
  have hmem : (⟨other, b - a, a⟩ : OverlappingCall) ∈
      overlappingCalls candidates dropped c d treesitter := by
    rw [mem_overlappingCalls]
    dsimp only
    rw [hsum]
    exact ⟨hother, hdropped, hrange, hlt, hgt⟩
  obtain ⟨call, hcall, hle⟩ := (foldl_innerCall _ none).2 _ (Or.inr hmem)
  rcases (foldl_innerCall _ none).1 call hcall with hnone | hin
  · cases hnone
  · obtain ⟨-, -, hrange', hlt', hgt'⟩ := mem_overlappingCalls.mp hin
    refine ⟨call.index, call.start, call.start + call.span, ?_, hrange', hlt', hgt', ?_⟩
    · rw [innermostCall, hscip.1, hscip.2]
      dsimp only
      rw [hcall]
      rfl
    · dsimp only at hle
      omega

/-- **What a SCIP call matches** is a tree-sitter call of its callee that is not dropped, and
overlaps it or is on its line. -/
theorem matchedCall_spec {scipIndex index : ℕ}
    (h : matchedCall candidates dropped scipIndex = some index) :
    index ∈ treesitterByCallee candidates (calleeAt candidates scipIndex) ∧
      dropped.getD index false = false ∧
      (SitesOverlap (siteAt candidates index) (siteAt candidates scipIndex) ∨
        SameLine (siteAt candidates index) (siteAt candidates scipIndex)) := by
  unfold matchedCall at h
  dsimp only at h
  split at h
  case h_1 other hinner =>
    cases h
    obtain ⟨hmem, hdropped, hoverlap⟩ := innermostCall_spec hinner
    exact ⟨hmem, hdropped, Or.inl hoverlap⟩
  case h_2 =>
    unfold callOnLine at h
    split at h
    case h_1 => cases h
    case h_2 line hline =>
      have hfound := List.find?_some h
      rw [Bool.and_eq_true, Bool.not_eq_true', decide_eq_true_eq] at hfound
      exact ⟨List.mem_of_find?_eq_some h, hfound.1, Or.inr ⟨line, hfound.2, hline⟩⟩

end Matching

/-! ## 3. The loop -/

section Loop

variable {candidates : List MergeCandidate}

/-- A drop that a SCIP call answers for: of its callee, and overlapping it or on its line. -/
def Chargeable (candidates : List MergeCandidate) (index scipIndex : ℕ) : Prop :=
  isTreesitterCall candidates index = true ∧
    calleeAt candidates index = calleeAt candidates scipIndex ∧
    (SitesOverlap (siteAt candidates index) (siteAt candidates scipIndex) ∨
      SameLine (siteAt candidates index) (siteAt candidates scipIndex))

/-- **The loop after the calls `done`**: each drop is charged to one of them, no two to the same. -/
structure Charging (candidates : List MergeCandidate) (done : List ℕ) (dropped : List Bool) :
    Prop where
  length_eq : dropped.length = candidates.length
  count_le : dropped.count true ≤ done.length
  charged : ∃ charge : ℕ → ℕ,
    (∀ index, dropped.getD index false = true →
      charge index ∈ done ∧ Chargeable candidates index (charge index)) ∧
    ∀ i j, dropped.getD i false = true → dropped.getD j false = true → charge i = charge j → i = j

theorem getD_set {dropped : List Bool} {index : ℕ} (h : index < dropped.length) (i : ℕ) :
    (dropped.set index true).getD i false = if i = index then true else dropped.getD i false := by
  rw [List.getD_eq_getElem?_getD, List.getD_eq_getElem?_getD, List.getElem?_set]
  by_cases hi : i = index
  · rw [if_pos hi.symm, if_pos hi, if_pos h]
    rfl
  · rw [if_neg (Ne.symm hi), if_neg hi]

/-- The drop of a call that was not dropped. -/
theorem dropMatched_eq {dropped : List Bool} {scipIndex index : ℕ}
    (h : matchedCall candidates dropped scipIndex = some index) :
    dropMatched candidates dropped scipIndex = dropped.set index true := by
  rw [dropMatched, h]

theorem Charging.step {done : List ℕ} {dropped : List Bool} (h : Charging candidates done dropped)
    {scipIndex : ℕ} (hnew : scipIndex ∉ done) :
    Charging candidates (done ++ [scipIndex]) (dropMatched candidates dropped scipIndex) := by
  obtain ⟨charge, hcharge, hinj⟩ := h.charged
  cases hmatch : matchedCall candidates dropped scipIndex with
  | none =>
    have hsame : dropMatched candidates dropped scipIndex = dropped := by rw [dropMatched, hmatch]
    rw [hsame]
    refine ⟨h.length_eq, ?_, charge, fun index hindex => ?_, hinj⟩
    · rw [List.length_append]
      exact h.count_le.trans (Nat.le_add_right _ _)
    · exact ⟨List.mem_append_left _ (hcharge index hindex).1, (hcharge index hindex).2⟩
  | some index =>
    rw [dropMatched_eq hmatch]
    obtain ⟨hmem, hfree, hsites⟩ := matchedCall_spec hmatch
    obtain ⟨hlt, htreesitter, hcallee⟩ := mem_treesitterByCallee.mp hmem
    have hlength : index < dropped.length := h.length_eq ▸ hlt
    refine ⟨by rw [List.length_set, h.length_eq], ?_,
      Function.update charge index scipIndex, ?_, ?_⟩
    · rw [List.count_set hlength, List.length_append, List.length_singleton]
      have hcount := h.count_le
      split <;> split <;> omega
    · intro i hi
      rw [getD_set hlength] at hi
      by_cases hii : i = index
      · subst hii
        rw [Function.update_self]
        exact ⟨List.mem_append_right _ List.mem_cons_self, htreesitter, hcallee, hsites⟩
      · rw [if_neg hii] at hi
        rw [Function.update_of_ne hii]
        exact ⟨List.mem_append_left _ (hcharge i hi).1, (hcharge i hi).2⟩
    · intro i j hi hj heq
      rw [getD_set hlength] at hi hj
      by_cases hii : i = index
      · by_cases hjj : j = index
        · exact hii.trans hjj.symm
        · rw [if_neg hjj] at hj
          rw [hii, Function.update_self, Function.update_of_ne hjj] at heq
          exact absurd (heq ▸ (hcharge j hj).1) hnew
      · rw [if_neg hii] at hi
        by_cases hjj : j = index
        · rw [hjj, Function.update_self, Function.update_of_ne hii] at heq
          exact absurd (heq ▸ (hcharge i hi).1) hnew
        · rw [if_neg hjj] at hj
          rw [Function.update_of_ne hii, Function.update_of_ne hjj] at heq
          exact hinj i j hi hj heq

theorem Charging.foldl : ∀ (calls : List ℕ) {done : List ℕ} {dropped : List Bool},
    Charging candidates done dropped → (done ++ calls).Nodup →
      Charging candidates (done ++ calls) (calls.foldl (dropMatched candidates) dropped)
  | [], done, _, h, _ => by
    rw [List.append_nil]
    exact h
  | call :: calls, done, _, h, hnodup => by
    rw [← List.singleton_append, ← List.append_assoc] at hnodup ⊢
    have hnew : call ∉ done := by
      intro hmem
      have hdisjoint := (List.nodup_append.mp (List.nodup_append.mp hnodup).1).2.2
      exact hdisjoint call hmem call List.mem_cons_self rfl
    exact Charging.foldl calls (h.step hnew) hnodup

theorem scipCalls_perm (candidates : List MergeCandidate) : (scipCalls candidates).Perm
    ((List.range candidates.length).filter (isClaimingCall candidates)) :=
  List.mergeSort_perm _ _

theorem scipCalls_nodup (candidates : List MergeCandidate) : (scipCalls candidates).Nodup :=
  (scipCalls_perm candidates).nodup_iff.mpr (List.nodup_range.filter _)

theorem mem_scipCalls {scipIndex : ℕ} :
    scipIndex ∈ scipCalls candidates ↔
      scipIndex < candidates.length ∧ isClaimingCall candidates scipIndex = true := by
  rw [(scipCalls_perm candidates).mem_iff, List.mem_filter, List.mem_range]

theorem getD_false (index : ℕ) :
    (candidates.map fun _ => false).getD index false = false := by
  rw [List.getD_eq_getElem?_getD, List.getElem?_map]
  cases candidates[index]? <;> rfl

theorem charging_start : Charging candidates [] (candidates.map fun _ => false) := by
  refine ⟨List.length_map _, ?_, id, fun index hindex => ?_, fun i _ hi => ?_⟩
  · rw [List.count_eq_zero_of_not_mem]
    · exact Nat.zero_le _
    · intro hmem
      obtain ⟨_, -, h⟩ := List.mem_map.mp hmem
      cases h
  · rw [getD_false] at hindex
    cases hindex
  · rw [getD_false] at hi
    cases hi

/-! ## 4. Own expressions -/

/-- **Call expressions**: each tree-sitter call has a range, no two have the same, and two of them
are nested or disjoint. -/
structure CallExpressions (candidates : List MergeCandidate) : Prop where
  known : ∀ i, isTreesitterCall candidates i = true → ∃ a b, HasRange (siteAt candidates i) a b
  distinct : ∀ i j a b, isTreesitterCall candidates i = true →
    isTreesitterCall candidates j = true → HasRange (siteAt candidates i) a b →
      HasRange (siteAt candidates j) a b → i = j
  nested : ∀ i j a b c d, isTreesitterCall candidates i = true →
    isTreesitterCall candidates j = true → HasRange (siteAt candidates i) a b →
      HasRange (siteAt candidates j) c d →
        b ≤ c ∨ d ≤ a ∨ (a ≤ c ∧ d ≤ b) ∨ (c ≤ a ∧ b ≤ d)

/-- **The own expression** of a SCIP call: the innermost tree-sitter call of its callee whose range
contains its identifier. -/
def OwnExpression (candidates : List MergeCandidate) (scipIndex own : ℕ) : Prop :=
  own ∈ treesitterByCallee candidates (calleeAt candidates scipIndex) ∧
    ∃ a b p q, HasRange (siteAt candidates own) a b ∧ HasRange (siteAt candidates scipIndex) p q ∧
      a ≤ p ∧ q ≤ b ∧
      ∀ other ∈ treesitterByCallee candidates (calleeAt candidates scipIndex), ∀ c d,
        HasRange (siteAt candidates other) c d → c ≤ p → q ≤ d → a ≤ c → d ≤ b → other = own

/-- The own expression overlaps the identifier, and so does no call of the callee that does not
contain it. -/
def OverlapsAsOwn (candidates : List MergeCandidate) (scipIndex own : ℕ) : Prop :=
  SitesOverlap (siteAt candidates own) (siteAt candidates scipIndex) ∧
    ∀ other ∈ treesitterByCallee candidates (calleeAt candidates scipIndex), ∀ c d p q,
      HasRange (siteAt candidates other) c d → HasRange (siteAt candidates scipIndex) p q →
        c < q → p < d → c ≤ p ∧ q ≤ d

/-- **A SCIP call matches its own expression** as long as that is not dropped. -/
theorem matchedCall_own (hcalls : CallExpressions candidates) {dropped : List Bool}
    {scipIndex own : ℕ} (hown : OwnExpression candidates scipIndex own)
    (hoverlap : OverlapsAsOwn candidates scipIndex own) (hfree : dropped.getD own false = false) :
    matchedCall candidates dropped scipIndex = some own := by
  obtain ⟨hmem, a, b, p, q, hrange, hscip, hap, hqb, hinner⟩ := hown
  obtain ⟨⟨a', b', p', q', hrange', hscip', hlt, hgt⟩, hcontains⟩ := hoverlap
  obtain ⟨rfl, rfl⟩ := hrange'.unique hrange
  obtain ⟨rfl, rfl⟩ := hscip'.unique hscip
  obtain ⟨index, c, d, hfound, hindexRange, hlt', hgt', hspan⟩ :=
    innermostCall_least hmem hfree hrange hscip hlt hgt
  have hindex := (innermostCall_spec hfound).1
  obtain ⟨hcp, hqd⟩ := hcontains index hindex c d _ _ hindexRange hscip hlt' hgt'
  have hsame : index = own := by
    have htreesitter := (mem_treesitterByCallee.mp hindex).2.1
    have htreesitter' := (mem_treesitterByCallee.mp hmem).2.1
    rcases hcalls.nested index own c d _ _ htreesitter htreesitter' hindexRange hrange with
      h | h | ⟨h₁, h₂⟩ | ⟨h₁, h₂⟩
    · omega
    · omega
    · -- the own expression lies in the other, which is not longer: they are one
      have hc : c = a' := by omega
      have hd : d = b' := by omega
      rw [hc, hd] at hindexRange
      exact hcalls.distinct index own _ _ htreesitter htreesitter' hindexRange hrange
    · exact hinner index hindex c d hindexRange hcp hqd h₁ h₂
  rw [matchedCall, hfound, hsame]

/-- The loop drops the own expressions of the calls it came to. -/
theorem foldl_dropMatched_own (hcalls : CallExpressions candidates) (own : ℕ → ℕ) :
    ∀ (calls : List ℕ) {dropped : List Bool}, dropped.length = candidates.length → calls.Nodup →
      (∀ s ∈ calls, OwnExpression candidates s (own s) ∧ OverlapsAsOwn candidates s (own s) ∧
        dropped.getD (own s) false = false) →
      (∀ s ∈ calls, ∀ s' ∈ calls, own s = own s' → s = s') → ∀ index,
        (calls.foldl (dropMatched candidates) dropped).getD index false = true ↔
          dropped.getD index false = true ∨ ∃ s ∈ calls, own s = index
  | [], dropped, _, _, _, _, index => by simp
  | call :: calls, dropped, hlength, hnodup, hown, hinj, index => by
    obtain ⟨hexpr, hoverlap, hfree⟩ := hown call List.mem_cons_self
    have hmatch := matchedCall_own hcalls hexpr hoverlap hfree
    have hlt : own call < dropped.length := hlength ▸ (mem_treesitterByCallee.mp hexpr.1).1
    obtain ⟨hnew, hnodup⟩ := List.nodup_cons.mp hnodup
    have hlength' : (dropped.set (own call) true).length = candidates.length := by
      rw [List.length_set, hlength]
    have hown' : ∀ s ∈ calls, OwnExpression candidates s (own s) ∧
        OverlapsAsOwn candidates s (own s) ∧
          (dropped.set (own call) true).getD (own s) false = false := by
      intro s hs
      obtain ⟨hexpr', hoverlap', hfree'⟩ := hown s (List.mem_cons_of_mem _ hs)
      refine ⟨hexpr', hoverlap', ?_⟩
      rw [getD_set hlt, if_neg, hfree']
      intro hsame
      have heq := hinj s (List.mem_cons_of_mem _ hs) call List.mem_cons_self hsame
      exact hnew (heq ▸ hs)
    have hinj' : ∀ s ∈ calls, ∀ s' ∈ calls, own s = own s' → s = s' :=
      fun s hs s' hs' => hinj s (List.mem_cons_of_mem _ hs) s' (List.mem_cons_of_mem _ hs')
    have hrest := foldl_dropMatched_own hcalls own calls hlength' hnodup hown' hinj' index
    rw [List.foldl_cons, dropMatched_eq hmatch, hrest, getD_set hlt]
    by_cases hindex : index = own call
    · rw [if_pos hindex]
      exact ⟨fun _ => Or.inr ⟨call, List.mem_cons_self, hindex.symm⟩, fun _ => Or.inl rfl⟩
    · rw [if_neg hindex]
      refine or_congr_right ?_
      constructor
      · rintro ⟨s, hs, hsame⟩
        exact ⟨s, List.mem_cons_of_mem _ hs, hsame⟩
      · rintro ⟨s, hs, rfl⟩
        rcases List.mem_cons.mp hs with rfl | hs
        · exact absurd rfl hindex
        · exact ⟨s, hs, rfl⟩

/-- **The dedupe drops the own expressions**, where each SCIP call has one, no two the same, and a
call of the callee that overlaps an identifier contains it. In any list the drops are tree-sitter
calls, each charged to a claiming SCIP call of its own. -/
theorem dedupe_drops_own_expressions (candidates : List MergeCandidate) :
    (∀ own : ℕ → ℕ, CallExpressions candidates →
      (∀ s < candidates.length, isClaimingCall candidates s = true →
        OwnExpression candidates s (own s) ∧ OverlapsAsOwn candidates s (own s)) →
      (∀ s < candidates.length, ∀ s' < candidates.length, isClaimingCall candidates s = true →
        isClaimingCall candidates s' = true → own s = own s' → s = s') →
      ∀ index, (treesitterCallsAtScipSites candidates).getD index false = true ↔
        ∃ s < candidates.length, isClaimingCall candidates s = true ∧ own s = index) ∧
    (treesitterCallsAtScipSites candidates).count true ≤
      ((List.range candidates.length).filter (isClaimingCall candidates)).length ∧
    ∃ charge : ℕ → ℕ,
      (∀ index, (treesitterCallsAtScipSites candidates).getD index false = true →
        charge index < candidates.length ∧ isClaimingCall candidates (charge index) = true ∧
          Chargeable candidates index (charge index)) ∧
      ∀ i j, (treesitterCallsAtScipSites candidates).getD i false = true →
        (treesitterCallsAtScipSites candidates).getD j false = true → charge i = charge j →
          i = j := by
  have hcharging : Charging candidates (scipCalls candidates)
      (treesitterCallsAtScipSites candidates) :=
    Charging.foldl (scipCalls candidates) charging_start (scipCalls_nodup candidates)
  refine ⟨fun own hcalls hown hinj index => ?_, ?_, ?_⟩
  · rw [treesitterCallsAtScipSites, foldl_dropMatched_own hcalls own (scipCalls candidates)
      (List.length_map _) (scipCalls_nodup candidates), getD_false]
    · constructor
      · rintro (h | ⟨s, hs, hsame⟩)
        · cases h
        · obtain ⟨hlt, hclaims⟩ := mem_scipCalls.mp hs
          exact ⟨s, hlt, hclaims, hsame⟩
      · rintro ⟨s, hlt, hclaims, hsame⟩
        exact Or.inr ⟨s, mem_scipCalls.mpr ⟨hlt, hclaims⟩, hsame⟩
    · intro s hs
      obtain ⟨hlt, hclaims⟩ := mem_scipCalls.mp hs
      obtain ⟨hexpr, hoverlap⟩ := hown s hlt hclaims
      exact ⟨hexpr, hoverlap, getD_false _⟩
    · intro s hs s' hs'
      obtain ⟨hlt, hclaims⟩ := mem_scipCalls.mp hs
      obtain ⟨hlt', hclaims'⟩ := mem_scipCalls.mp hs'
      exact hinj s hlt s' hlt' hclaims hclaims'
  · rw [← (scipCalls_perm candidates).length_eq]
    exact hcharging.count_le
  · obtain ⟨charge, hcharge, hone⟩ := hcharging.charged
    refine ⟨charge, fun index hindex => ?_, hone⟩
    obtain ⟨hdone, hchargeable⟩ := hcharge index hindex
    obtain ⟨hlt, hclaims⟩ := mem_scipCalls.mp hdone
    exact ⟨hlt, hclaims, hchargeable⟩

/-- Two calls, the second inside the first. -/
theorem callExpressions_of_two (hindex : ∀ i, isTreesitterCall candidates i = true → i = 0 ∨ i = 1)
    {a b c d : ℤ} (houter : HasRange (siteAt candidates 0) a b)
    (hinner : HasRange (siteAt candidates 1) c d) (hac : a ≤ c) (hdb : d ≤ b)
    (hne : (a, b) ≠ (c, d)) : CallExpressions candidates := by
  constructor
  · intro i hi
    rcases hindex i hi with rfl | rfl
    · exact ⟨a, b, houter⟩
    · exact ⟨c, d, hinner⟩
  · intro i j x y hi hj hx hy
    rcases hindex i hi with rfl | rfl <;> rcases hindex j hj with rfl | rfl
    · rfl
    · obtain ⟨rfl, rfl⟩ := hx.unique houter
      obtain ⟨rfl, rfl⟩ := hy.unique hinner
      exact absurd rfl hne
    · obtain ⟨rfl, rfl⟩ := hx.unique hinner
      obtain ⟨rfl, rfl⟩ := hy.unique houter
      exact absurd rfl hne
    · rfl
  · intro i j x y z w hi hj hx hz
    rcases hindex i hi with rfl | rfl <;> rcases hindex j hj with rfl | rfl
    · obtain ⟨rfl, rfl⟩ := hx.unique hz
      omega
    · obtain ⟨rfl, rfl⟩ := hx.unique houter
      obtain ⟨rfl, rfl⟩ := hz.unique hinner
      omega
    · obtain ⟨rfl, rfl⟩ := hx.unique hinner
      obtain ⟨rfl, rfl⟩ := hz.unique houter
      omega
    · obtain ⟨rfl, rfl⟩ := hx.unique hz
      omega

theorem isTreesitterCall_lt {i : ℕ} (h : isTreesitterCall candidates i = true) :
    i < candidates.length := by
  by_contra hge
  have hdefault : candidateAt candidates i = {} :=
    List.getD_eq_default _ _ (not_lt.mp hge)
  rw [isTreesitterCall, hdefault] at h
  cases h

/-- The calls of `q.f(a).f(b)`. -/
def chainedCalls : List MergeCandidate :=
  [⟨true, .treesitter, { start := some 0, stop := some 11, name := some "q.f(a).f" }⟩,
    ⟨true, .treesitter, { start := some 0, stop := some 6, name := some "q.f" }⟩,
    ⟨true, .scip, { start := some 7, stop := some 8, name := some "f" }⟩,
    ⟨true, .scip, { start := some 2, stop := some 3, name := some "f" }⟩]

theorem chainedCalls_index (i : ℕ) (hi : isTreesitterCall chainedCalls i = true) :
    i = 0 ∨ i = 1 := by
  have hlt : i < 4 := isTreesitterCall_lt hi
  revert hi
  interval_cases i <;> decide

/-- Each identifier drops its own call. -/
theorem dedupe_drops_chained_calls :
    (treesitterCallsAtScipSites chainedCalls).getD 0 false = true ∧
      (treesitterCallsAtScipSites chainedCalls).getD 1 false = true := by
  have hmem : ∀ other ∈ treesitterByCallee chainedCalls ['f'], other = 0 ∨ other = 1 :=
    fun other hother => chainedCalls_index other (mem_treesitterByCallee.mp hother).2.1
  have houter : HasRange (siteAt chainedCalls 0) 0 11 := ⟨rfl, rfl⟩
  have hinner : HasRange (siteAt chainedCalls 1) 0 6 := ⟨rfl, rfl⟩
  have hcalls : CallExpressions chainedCalls :=
    callExpressions_of_two chainedCalls_index houter hinner le_rfl (by decide) (by decide)
  have hdrops := (dedupe_drops_own_expressions chainedCalls).1 (fun s => if s = 2 then 0 else 1)
    hcalls ?_ ?_
  · exact ⟨(hdrops 0).mpr ⟨2, by decide, by decide, rfl⟩,
      (hdrops 1).mpr ⟨3, by decide, by decide, rfl⟩⟩
  · intro s hs hclaims
    have hcase : s = 2 ∨ s = 3 := by
      have hlt : s < 4 := hs
      revert hclaims
      interval_cases s <;> decide
    rcases hcase with rfl | rfl
    · refine ⟨⟨by decide, 0, 11, 7, 8, houter, ⟨rfl, rfl⟩, by decide, by decide, ?_⟩,
        ⟨0, 11, 7, 8, houter, ⟨rfl, rfl⟩, by decide, by decide⟩, ?_⟩
      · intro other hother c d hrange hc hd hac hdb
        rcases hmem other hother with rfl | rfl
        · rfl
        · obtain ⟨rfl, rfl⟩ := hrange.unique hinner
          omega
      · intro other hother c d p q hrange hscip hc hd
        obtain ⟨rfl, rfl⟩ := hscip.unique ⟨rfl, rfl⟩
        rcases hmem other hother with rfl | rfl
        · obtain ⟨rfl, rfl⟩ := hrange.unique houter
          omega
        · obtain ⟨rfl, rfl⟩ := hrange.unique hinner
          omega
    · refine ⟨⟨by decide, 0, 6, 2, 3, hinner, ⟨rfl, rfl⟩, by decide, by decide, ?_⟩,
        ⟨0, 6, 2, 3, hinner, ⟨rfl, rfl⟩, by decide, by decide⟩, ?_⟩
      · intro other hother c d hrange hc hd hac hdb
        rcases hmem other hother with rfl | rfl
        · obtain ⟨rfl, rfl⟩ := hrange.unique houter
          omega
        · rfl
      · intro other hother c d p q hrange hscip hc hd
        obtain ⟨rfl, rfl⟩ := hscip.unique ⟨rfl, rfl⟩
        rcases hmem other hother with rfl | rfl
        · obtain ⟨rfl, rfl⟩ := hrange.unique houter
          omega
        · obtain ⟨rfl, rfl⟩ := hrange.unique hinner
          omega
  · decide

/-- A call expression of the callee inside an identifier. -/
def callInsideIdentifier : List MergeCandidate :=
  [⟨true, .treesitter, { start := some 0, stop := some 10, name := some "f" }⟩,
    ⟨true, .treesitter, { start := some 4, stop := some 5, name := some "f" }⟩,
    ⟨true, .scip, { start := some 3, stop := some 6, name := some "f" }⟩]

/-- **A call inside the identifier is dropped** in the place of the own expression. -/
theorem call_inside_identifier_dropped :
    CallExpressions callInsideIdentifier ∧
      (∀ s < callInsideIdentifier.length, isClaimingCall callInsideIdentifier s = true →
        OwnExpression callInsideIdentifier s 0) ∧
      (∀ s < callInsideIdentifier.length, ∀ s' < callInsideIdentifier.length,
        isClaimingCall callInsideIdentifier s = true →
          isClaimingCall callInsideIdentifier s' = true → s = s') ∧
      treesitterCallsAtScipSites callInsideIdentifier = [false, true, false] := by
  have hindex : ∀ i, isTreesitterCall callInsideIdentifier i = true → i = 0 ∨ i = 1 := by
    intro i hi
    have hlt : i < 3 := isTreesitterCall_lt hi
    revert hi
    interval_cases i <;> decide
  have hinner : HasRange (siteAt callInsideIdentifier 1) 4 5 := ⟨rfl, rfl⟩
  have hscip : scipCalls callInsideIdentifier = [2] := by
    have hclaims : (List.range callInsideIdentifier.length).filter
        (isClaimingCall callInsideIdentifier) = [2] := by decide
    rw [scipCalls, hclaims, List.mergeSort_singleton]
  refine ⟨callExpressions_of_two hindex ⟨rfl, rfl⟩ hinner (by decide) (by decide) (by decide), ?_,
    by decide, ?_⟩
  · intro s hs hclaims
    have hcase : s = 2 := by
      have hlt : s < 3 := hs
      revert hclaims
      interval_cases s <;> decide
    subst hcase
    refine ⟨by decide, 0, 10, 3, 6, ⟨rfl, rfl⟩, ⟨rfl, rfl⟩, by decide, by decide, ?_⟩
    intro other hother c d hrange hc hd hac hdb
    rcases hindex other (mem_treesitterByCallee.mp hother).2.1 with rfl | rfl
    · rfl
    · obtain ⟨rfl, rfl⟩ := hrange.unique hinner
      omega
  · rw [treesitterCallsAtScipSites, hscip]
    decide

end Loop

end PosseClient
