/-
# Searches of a directed graph with a set of vertices seen

A graph is a function `next` to the successors of a vertex.

* `search`: depth first, one set of seen vertices for all branches, until a goal is found. It
  finds one exactly where a path leads to one (`search_eq_none_iff`).
* `walk`: with a stack of pending vertices, marked when they are pushed, which never enters its
  start. It finds exactly what a path leads to (`mem_walk_iff`).

Both take fuel, and the results are for all fuel above the number of vertices.
-/
import Mathlib

namespace PosseClient.GraphSearch

open Relation

variable {α : Type*} (next : α → List α)

/-- An edge of the graph. -/
def Step (x y : α) : Prop := y ∈ next x

/-- A set that has the successors of its members has all that its members lead to. -/
theorem mem_of_closed {next : α → List α} {S : α → Prop} (hS : ∀ y, S y → ∀ z ∈ next y, S z)
    {x y : α} (hx : S x) (h : ReflTransGen (Step next) x y) : S y := by
  induction h with
  | refl => exact hx
  | tail _ hstep ih => exact hS _ ih _ hstep

/-! ## 1. Depth first -/

/-- Depth-first search: `none` where a goal is found, else the vertices seen. -/
def search [DecidableEq α] (goal : α → Bool) : ℕ → List α → α → Option (List α)
  | 0, seen, _ => some seen
  | fuel + 1, seen, x =>
    if goal x then none
    else if x ∈ seen then some seen
    else (next x).foldlM (search goal fuel) (seen ++ [x])

/-- **What a search from `xs` without a goal has seen**, `seen` being the vertices seen before. -/
structure Searched (goal : α → Bool) (xs seen seen' : List α) : Prop where
  extends_ : seen ⊆ seen'
  starts : ∀ x ∈ xs, x ∈ seen'
  closed : ∀ y ∈ seen', y ∉ seen → ∀ z ∈ next y, z ∈ seen'
  no_goal : ∀ y ∈ seen', y ∉ seen → goal y = false
  reached : ∀ y ∈ seen', y ∉ seen → ∃ x ∈ xs, ReflTransGen (Step next) x y

variable {next}
variable {goal : α → Bool}

theorem Searched.nil (seen : List α) : Searched next goal [] seen seen := by
  constructor
  · exact fun _ h => h
  · exact fun _ h => absurd h List.not_mem_nil
  · exact fun _ h hnot => absurd h hnot
  · exact fun _ h hnot => absurd h hnot
  · exact fun _ h hnot => absurd h hnot

theorem Searched.of_mem {x : α} {seen : List α} (hx : x ∈ seen) :
    Searched next goal [x] seen seen := by
  constructor
  · exact fun _ h => h
  · exact fun y hy => List.mem_singleton.mp hy ▸ hx
  · exact fun _ h hnot => absurd h hnot
  · exact fun _ h hnot => absurd h hnot
  · exact fun _ h hnot => absurd h hnot

/-- One search after another. -/
theorem Searched.cons {x : α} {xs seen seen₁ seen₂ : List α}
    (h₁ : Searched next goal [x] seen seen₁) (h₂ : Searched next goal xs seen₁ seen₂) :
    Searched next goal (x :: xs) seen seen₂ := by
  have hcase : ∀ y ∈ seen₂, y ∉ seen → (y ∈ seen₁ ∧ y ∉ seen) ∨ y ∉ seen₁ := by
    intro y _ hnot
    by_cases hy : y ∈ seen₁
    · exact Or.inl ⟨hy, hnot⟩
    · exact Or.inr hy
  constructor
  · exact fun y hy => h₂.extends_ (h₁.extends_ hy)
  · intro y hy
    rcases List.mem_cons.mp hy with rfl | hy
    · exact h₂.extends_ (h₁.starts y List.mem_cons_self)
    · exact h₂.starts y hy
  · intro y hy hnot z hz
    rcases hcase y hy hnot with ⟨hy₁, hnot⟩ | hy₁
    · exact h₂.extends_ (h₁.closed y hy₁ hnot z hz)
    · exact h₂.closed y hy hy₁ z hz
  · intro y hy hnot
    rcases hcase y hy hnot with ⟨hy₁, hnot⟩ | hy₁
    · exact h₁.no_goal y hy₁ hnot
    · exact h₂.no_goal y hy hy₁
  · intro y hy hnot
    rcases hcase y hy hnot with ⟨hy₁, hnot⟩ | hy₁
    · obtain ⟨a, ha, hay⟩ := h₁.reached y hy₁ hnot
      exact ⟨x, List.mem_cons_self, List.mem_singleton.mp ha ▸ hay⟩
    · obtain ⟨a, ha, hay⟩ := h₂.reached y hy hy₁
      exact ⟨a, List.mem_cons_of_mem _ ha, hay⟩

variable [DecidableEq α]

/-- A vertex is marked, then its successors are searched. -/
theorem Searched.enter {x : α} {seen seen' : List α} (hgoal : goal x = false)
    (h : Searched next goal (next x) (seen ++ [x]) seen') :
    Searched next goal [x] seen seen' := by
  have hmem : x ∈ seen' := h.extends_ (List.mem_append_right _ List.mem_cons_self)
  have hcase : ∀ y, y ∉ seen → y = x ∨ y ∉ seen ++ [x] := by
    intro y hnot
    by_cases hy : y = x
    · exact Or.inl hy
    · refine Or.inr fun hin => ?_
      rcases List.mem_append.mp hin with hin | hin
      · exact hnot hin
      · exact hy (List.mem_singleton.mp hin)
  constructor
  · exact fun y hy => h.extends_ (List.mem_append_left _ hy)
  · exact fun y hy => List.mem_singleton.mp hy ▸ hmem
  · intro y hy hnot z hz
    rcases hcase y hnot with rfl | hnot
    · exact h.starts z hz
    · exact h.closed y hy hnot z hz
  · intro y hy hnot
    rcases hcase y hnot with rfl | hnot
    · exact hgoal
    · exact h.no_goal y hy hnot
  · intro y hy hnot
    refine ⟨x, List.mem_cons_self, ?_⟩
    rcases hcase y hnot with rfl | hnot
    · exact ReflTransGen.refl
    · obtain ⟨a, ha, hay⟩ := h.reached y hy hnot
      exact ReflTransGen.head ha hay

/-- The sources of edges not seen yet: what a search still has to enter. -/
def unseen (sources seen : List α) : List α := sources.filter (fun x => decide (x ∉ seen))

theorem unseen_length_mono {sources seen seen' : List α} (h : seen ⊆ seen') :
    (unseen sources seen').length ≤ (unseen sources seen).length := by
  refine List.Sublist.length_le (List.monotone_filter_right _ fun x hx => ?_)
  rw [decide_eq_true_eq] at hx ⊢
  exact fun hmem => hx (h hmem)

theorem unseen_length_lt {sources seen : List α} {x : α} (hx : x ∈ sources) (hnot : x ∉ seen) :
    (unseen sources (seen ++ [x])).length < (unseen sources seen).length := by
  have hsub : unseen sources (seen ++ [x]) =
      (unseen sources seen).filter (fun y => decide (y ≠ x)) := by
    rw [unseen, unseen, List.filter_filter]
    refine List.filter_congr fun y _ => ?_
    by_cases hy : y = x <;> simp [hy]
  rw [hsub]
  refine List.length_filter_lt_length_iff_exists.mpr ⟨x, ?_, by simp⟩
  exact List.mem_filter.mpr ⟨hx, decide_eq_true hnot⟩

section Fuel

variable {sources : List α}

/-- Searches one after another, each with its own result. -/
theorem Searched.foldlM {f : List α → α → Option (List α)} {n : ℕ}
    (hf : ∀ {seen seen' : List α} {x : α}, (unseen sources seen).length < n →
      f seen x = some seen' → Searched next goal [x] seen seen') :
    ∀ (xs : List α) {seen seen' : List α}, (unseen sources seen).length < n →
      xs.foldlM f seen = some seen' → Searched next goal xs seen seen'
  | [], seen, seen', _, h => by
    cases h
    exact Searched.nil _
  | x :: xs, seen, seen', hseen, h => by
    rw [List.foldlM_cons] at h
    obtain ⟨seen₁, hx, hxs⟩ := Option.bind_eq_some_iff.mp h
    have hfirst := hf hseen hx
    have hless := lt_of_le_of_lt (unseen_length_mono hfirst.extends_) hseen
    exact hfirst.cons (Searched.foldlM hf xs hless hxs)

/-- **A search without a goal**, with fuel for what it can still enter. -/
theorem search_searched (hsources : ∀ x, next x ≠ [] → x ∈ sources) :
    ∀ (fuel : ℕ) {seen seen' : List α} {x : α}, (unseen sources seen).length < fuel →
      search next goal fuel seen x = some seen' → Searched next goal [x] seen seen'
  | 0, _, _, _, hfuel, _ => absurd hfuel (Nat.not_lt_zero _)
  | fuel + 1, seen, seen', x, hfuel, h => by
    rw [search] at h
    split at h
    case isTrue => cases h
    case isFalse hgoal =>
      split at h
      case isTrue hmem =>
        cases h
        exact Searched.of_mem hmem
      case isFalse hmem =>
        refine Searched.enter (Bool.eq_false_of_not_eq_true hgoal) ?_
        by_cases hleaf : next x = []
        · rw [hleaf] at h ⊢
          cases h
          exact Searched.nil _
        · have hlt := unseen_length_lt (hsources x hleaf) hmem
          exact Searched.foldlM (fun hs hy => search_searched hsources fuel hs hy) (next x)
            (by omega) h

/-- A search that finds a goal was led to one. -/
theorem search_eq_none : ∀ (fuel : ℕ) {seen : List α} {x : α},
    search next goal fuel seen x = none → ∃ y, ReflTransGen (Step next) x y ∧ goal y = true
  | 0, _, _, h => by cases h
  | fuel + 1, seen, x, h => by
    rw [search] at h
    split at h
    case isTrue hgoal => exact ⟨x, ReflTransGen.refl, hgoal⟩
    case isFalse =>
      split at h
      case isTrue => cases h
      case isFalse =>
        have hlist : ∀ (ys : List α) {s : List α}, ys.foldlM (search next goal fuel) s = none →
            ∃ z ∈ ys, ∃ y, ReflTransGen (Step next) z y ∧ goal y = true := by
          intro ys
          induction ys with
          | nil =>
            intro s hys
            cases hys
          | cons z ys ih =>
            intro s hys
            rw [List.foldlM_cons] at hys
            cases hz : search next goal fuel s z with
            | none => exact ⟨z, List.mem_cons_self, search_eq_none fuel hz⟩
            | some s₁ =>
              rw [hz] at hys
              obtain ⟨z', hz', hy⟩ := ih hys
              exact ⟨z', List.mem_cons_of_mem _ hz', hy⟩
        obtain ⟨z, hz, y, hzy, hy⟩ := hlist (next x) h
        exact ⟨y, ReflTransGen.head hz hzy, hy⟩

/-- **A search finds a goal exactly where a path leads to one.** -/
theorem search_eq_none_iff (hsources : ∀ x, next x ≠ [] → x ∈ sources) {fuel : ℕ}
    (hfuel : sources.length < fuel) {x : α} :
    search next goal fuel [] x = none ↔ ∃ y, ReflTransGen (Step next) x y ∧ goal y = true := by
  constructor
  · exact search_eq_none fuel
  · rintro ⟨y, hxy, hgoal⟩
    cases hsearch : search next goal fuel [] x with
    | none => rfl
    | some seen' =>
      have hunseen : (unseen sources []).length < fuel :=
        lt_of_le_of_lt (List.length_filter_le _ _) hfuel
      have hdone := search_searched hsources fuel hunseen hsearch
      have hy : y ∈ seen' := by
        refine mem_of_closed (S := (· ∈ seen')) ?_ (hdone.starts x List.mem_cons_self) hxy
        exact fun y hy => hdone.closed y hy List.not_mem_nil
      rw [hdone.no_goal y hy List.not_mem_nil] at hgoal
      cases hgoal

end Fuel

/-! ## 2. With a stack -/

variable (next) (start : α)

/-- A successor is found and pushed, unless it is the start or found before. -/
def push (state : List α × List α) (y : α) : List α × List α :=
  if y = start ∨ y ∈ state.2 then state else (y :: state.1, state.2 ++ [y])

/-- The top of the stack is taken and its successors are pushed, until the stack is empty; the
second list has what was found. -/
def walk : ℕ → List α × List α → List α × List α
  | 0, state => state
  | _ + 1, ([], found) => ([], found)
  | fuel + 1, (x :: pending, found) => walk fuel ((next x).foldl (push start) (pending, found))

/-- **A walk under way**: what was found is led to, and is pending or has all its successors found,
those in `left` apart, which the top of the stack still has to push. -/
structure Walking (left : List α) (state : List α × List α) : Prop where
  nodup : state.2.Nodup
  found_ne : start ∉ state.2
  pending_found : ∀ y ∈ state.1, y = start ∨ y ∈ state.2
  reached : ∀ y ∈ state.2, TransGen (Step next) start y
  closed : ∀ y, y = start ∨ y ∈ state.2 → y ∈ state.1 ∨
    ∀ z ∈ next y, z = start ∨ z ∈ state.2 ∨ z ∈ left

variable {next} {start}

/-- Pushing a successor of a vertex that is led to. -/
theorem Walking.push {y : α} {left : List α} {state : List α × List α}
    (h : Walking next start (y :: left) state)
    (hy : TransGen (Step next) start y) :
    Walking next start left (push start state y) := by
  unfold GraphSearch.push
  split
  case isTrue hold =>
    refine ⟨h.nodup, h.found_ne, h.pending_found, h.reached, fun a ha => ?_⟩
    rcases h.closed a ha with hpending | hnext
    · exact Or.inl hpending
    · refine Or.inr fun z hz => ?_
      rcases hnext z hz with hz | hz | hz
      · exact Or.inl hz
      · exact Or.inr (Or.inl hz)
      · rcases List.mem_cons.mp hz with rfl | hz
        · exact hold.imp id Or.inl
        · exact Or.inr (Or.inr hz)
  case isFalse hnew =>
    rw [not_or] at hnew
    constructor
    · exact List.nodup_append.mpr ⟨h.nodup, List.nodup_singleton y, by
        rintro a ha b hb rfl
        exact hnew.2 (List.mem_singleton.mp hb ▸ ha)⟩
    · intro hmem
      rcases List.mem_append.mp hmem with hmem | hmem
      · exact h.found_ne hmem
      · exact hnew.1 (List.mem_singleton.mp hmem).symm
    · intro a ha
      rcases List.mem_cons.mp ha with rfl | ha
      · exact Or.inr (List.mem_append_right _ List.mem_cons_self)
      · exact (h.pending_found a ha).imp id (List.mem_append_left _)
    · intro a ha
      rcases List.mem_append.mp ha with ha | ha
      · exact h.reached a ha
      · exact List.mem_singleton.mp ha ▸ hy
    · intro a ha
      have hcase : a = y ∨ a = start ∨ a ∈ state.2 := by
        rcases ha with ha | ha
        · exact Or.inr (Or.inl ha)
        · rcases List.mem_append.mp ha with ha | ha
          · exact Or.inr (Or.inr ha)
          · exact Or.inl (List.mem_singleton.mp ha)
      rcases hcase with rfl | hcase
      · exact Or.inl List.mem_cons_self
      · rcases h.closed a hcase with hpending | hnext
        · exact Or.inl (List.mem_cons_of_mem _ hpending)
        · refine Or.inr fun z hz => ?_
          rcases hnext z hz with hz | hz | hz
          · exact Or.inl hz
          · exact Or.inr (Or.inl (List.mem_append_left _ hz))
          · rcases List.mem_cons.mp hz with rfl | hz
            · exact Or.inr (Or.inl (List.mem_append_right _ List.mem_cons_self))
            · exact Or.inr (Or.inr hz)

theorem Walking.foldl_push : ∀ (ys : List α) {state : List α × List α},
    Walking next start ys state → (∀ y ∈ ys, TransGen (Step next) start y) →
      Walking next start [] (ys.foldl (GraphSearch.push start) state)
  | [], _, h, _ => h
  | y :: ys, _, h, hys =>
    Walking.foldl_push ys (h.push (hys y List.mem_cons_self)) fun z hz =>
      hys z (List.mem_cons_of_mem _ hz)

/-- What a walk has left to do: what is pending, and what can still be pushed. -/
def work (vertices : List α) (state : List α × List α) : ℕ :=
  state.1.length + (unseen vertices state.2).length

theorem work_foldl_push {vertices : List α} : ∀ (ys : List α) (state : List α × List α),
    (∀ y ∈ ys, y ∈ vertices) → work vertices (ys.foldl (push start) state) ≤ work vertices state
  | [], _, _ => le_rfl
  | y :: ys, state, hys => by
    have hrest := work_foldl_push ys (push start state y) fun z hz =>
      hys z (List.mem_cons_of_mem _ hz)
    have hone : work vertices (push start state y) ≤ work vertices state := by
      unfold push
      split
      case isTrue => exact le_rfl
      case isFalse hnew =>
        rw [not_or] at hnew
        have hlt := unseen_length_lt (hys y List.mem_cons_self) hnew.2
        simp only [work, List.length_cons]
        omega
    exact hrest.trans hone

/-- **A walk with fuel for its work** ends with nothing pending. -/
theorem walking_walk {vertices : List α} (hvertices : ∀ x, ∀ y ∈ next x, y ∈ vertices) :
    ∀ (fuel : ℕ) {state : List α × List α}, Walking next start [] state →
      work vertices state ≤ fuel → (walk next start fuel state).1 = [] ∧
        Walking next start [] (walk next start fuel state)
  | 0, (pending, found), h, hfuel => by
    have hempty : pending = [] := by
      rw [← List.length_eq_zero_iff]
      simp only [work] at hfuel
      omega
    exact ⟨hempty, h⟩
  | _ + 1, ([], found), h, _ => ⟨rfl, h⟩
  | fuel + 1, (x :: pending, found), h, hfuel => by
    have hx : x = start ∨ TransGen (Step next) start x :=
      (h.pending_found x List.mem_cons_self).imp id (h.reached x)
    have hnext : ∀ y ∈ next x, TransGen (Step next) start y := by
      intro y hy
      rcases hx with rfl | hx
      · exact TransGen.single hy
      · exact hx.tail hy
    have hpopped : Walking next start (next x) (pending, found) := by
      refine ⟨h.nodup, h.found_ne, fun y hy => h.pending_found y (List.mem_cons_of_mem _ hy),
        h.reached, fun y hy => ?_⟩
      rcases h.closed y hy with hpending | hclosed
      · rcases List.mem_cons.mp hpending with rfl | hpending
        · exact Or.inr fun z hz => Or.inr (Or.inr hz)
        · exact Or.inl hpending
      · refine Or.inr fun z hz => (hclosed z hz).imp id fun hz => ?_
        exact hz.elim Or.inl fun hz => absurd hz List.not_mem_nil
    refine walking_walk hvertices fuel (Walking.foldl_push (next x) hpopped hnext) ?_
    have hwork : work vertices ((next x).foldl (push start) (pending, found)) ≤
        work vertices (pending, found) :=
      work_foldl_push (next x) (pending, found) (hvertices x)
    have hless : work vertices (pending, found) < work vertices (x :: pending, found) := by
      simp only [work, List.length_cons]
      omega
    omega

section Walk

variable {vertices : List α} {fuel : ℕ}

theorem walking_start (hvertices : ∀ x, ∀ y ∈ next x, y ∈ vertices)
    (hfuel : vertices.length < fuel) : (walk next start fuel ([start], [])).1 = [] ∧
      Walking next start [] (walk next start fuel ([start], [])) := by
  refine walking_walk hvertices fuel ?_ ?_
  · constructor
    · exact List.nodup_nil
    · exact List.not_mem_nil
    · exact fun y hy => Or.inl (List.mem_singleton.mp hy)
    · exact fun y hy => absurd hy List.not_mem_nil
    · rintro y (rfl | hy)
      · exact Or.inl List.mem_cons_self
      · exact absurd hy List.not_mem_nil
  · have hle := List.length_filter_le (fun x => decide (x ∉ ([] : List α))) vertices
    simp only [work, unseen, List.length_singleton]
    omega

/-- **A walk finds exactly what a path leads to**, its start apart. -/
theorem mem_walk_iff (hvertices : ∀ x, ∀ y ∈ next x, y ∈ vertices)
    (hfuel : vertices.length < fuel) {y : α} :
    y ∈ (walk next start fuel ([start], [])).2 ↔ TransGen (Step next) start y ∧ y ≠ start := by
  obtain ⟨hempty, hdone⟩ :
      (walk next start fuel ([start], [])).1 = [] ∧ Walking next start [] (walk next start fuel
        ([start], [])) := walking_start hvertices hfuel
  generalize walk next start fuel ([start], []) = final at hempty hdone ⊢
  constructor
  · exact fun hy => ⟨hdone.reached y hy, fun heq => hdone.found_ne (heq ▸ hy)⟩
  · rintro ⟨hpath, hne⟩
    have hmem : y = start ∨ y ∈ final.2 := by
      refine mem_of_closed (S := fun z => z = start ∨ z ∈ final.2) ?_ (Or.inl rfl)
        hpath.to_reflTransGen
      intro z hz w hw
      rcases hdone.closed z hz with hpending | hclosed
      · rw [hempty] at hpending
        exact absurd hpending List.not_mem_nil
      · exact (hclosed w hw).imp id fun hw => hw.elim id fun hw => absurd hw List.not_mem_nil
    exact hmem.resolve_left hne

theorem walk_nodup (hvertices : ∀ x, ∀ y ∈ next x, y ∈ vertices)
    (hfuel : vertices.length < fuel) : (walk next start fuel ([start], [])).2.Nodup :=
  (walking_start hvertices hfuel).2.nodup

/-- A walk ends with an empty stack. -/
theorem walk_ends (hvertices : ∀ x, ∀ y ∈ next x, y ∈ vertices)
    (hfuel : vertices.length < fuel) : (walk next start fuel ([start], [])).1 = [] :=
  (walking_start hvertices hfuel).1

end Walk

end PosseClient.GraphSearch
