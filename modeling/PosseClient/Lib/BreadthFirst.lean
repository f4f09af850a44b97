/-
# Breadth-first walks visit by the first route

A graph is a function `next` to the successors of a vertex, in an order.  A route is the list of the
positions taken; routes are compared by length, and routes of one length from the left.

* `walk` goes from its start through a queue, marks a vertex when it is first met, and records the
  route it was met by.
* `mem_walk_iff`: with enough fuel it finds exactly the vertices a route leads to, each by its
  first route (`FirstRoute`).  What a walk carries along a route can be read off that route.
-/
import Mathlib

namespace PosseClient.BreadthFirst

variable {α : Type*} (next : α → List α)

/-! ## 1. Routes -/

/-- The vertex a route leads to. -/
def follow : α → List ℕ → Option α
  | x, [] => some x
  | x, i :: route => ((next x)[i]?).bind fun y => follow y route

theorem follow_append (x : α) (route route' : List ℕ) :
    follow next x (route ++ route') = (follow next x route).bind fun y => follow next y route' := by
  induction route generalizing x with
  | nil => rfl
  | cons i route ih =>
    rw [List.cons_append, follow, follow, Option.bind_assoc]
    exact Option.bind_congr fun y _ => ih y

theorem follow_snoc {x y : α} {route : List ℕ} (h : follow next x route = some y) (i : ℕ) :
    follow next x (route ++ [i]) = (next y)[i]? := by
  rw [follow_append, h, Option.bind_some, follow]
  cases (next y)[i]? <;> rfl

/-- One route comes before another. -/
abbrev Before : List ℕ → List ℕ → Prop := List.Shortlex (· < ·)

/-- **The first of the routes to a vertex.** -/
def FirstRoute (start : α) (route : List ℕ) (x : α) : Prop :=
  follow next start route = some x ∧
    ∀ route', follow next start route' = some x → route' = route ∨ Before route route'

theorem before_trans {a b c : List ℕ} (h : Before a b) (h' : Before b c) : Before a c := by
  rw [Before, List.shortlex_def] at h h' ⊢
  rcases h with h | ⟨hlen, hlex⟩
  · rcases h' with h' | ⟨hlen', -⟩
    · exact Or.inl (h.trans h')
    · exact Or.inl (hlen' ▸ h)
  · rcases h' with h' | ⟨hlen', hlex'⟩
    · exact Or.inl (hlen ▸ h')
    · have hab : a < b := hlex
      have hbc : b < c := hlex'
      exact Or.inr ⟨hlen.trans hlen', hab.trans hbc⟩

theorem not_before_of_before {a b : List ℕ} (h : Before a b) : ¬ Before b a :=
  fun h' => asymm_of (List.Shortlex (· < ·)) h h'

theorem before_snoc (route : List ℕ) {i j : ℕ} (h : i < j) :
    Before (route ++ [i]) (route ++ [j]) :=
  List.Shortlex.append_left ((List.shortlex_singleton_iff i j).mpr h) route

theorem lex_append {a b : List ℕ} (h : List.Lex (· < ·) a b) (hlen : a.length = b.length)
    (s t : List ℕ) : List.Lex (· < ·) (a ++ s) (b ++ t) := by
  induction h with
  | nil => cases hlen
  | cons _ ih => exact .cons (ih (Nat.succ.inj hlen))
  | rel h => exact .rel h

/-- What one of two routes leads on to comes before what the other leads on to. -/
theorem before_snoc_of_before {a b : List ℕ} (h : Before a b) (i j : ℕ) :
    Before (a ++ [i]) (b ++ [j]) := by
  rw [Before, List.shortlex_def] at h
  rcases h with h | ⟨hlen, hlex⟩
  · exact List.Shortlex.of_length_lt (by simpa using h)
  · exact List.Shortlex.of_lex (by simpa using hlen) (lex_append hlex hlen [i] [j])

theorem nil_before_snoc (route : List ℕ) (i : ℕ) : Before [] (route ++ [i]) :=
  List.Shortlex.of_length_lt (by simp)

/-! ## 2. The walk -/

section Walk

variable [DecidableEq α]

/-- The successors of a vertex, from position `i` on, are met in their order. -/
def meet (route : List ℕ) : ℕ → List α → List (List ℕ × α) → List (List ℕ × α)
  | _, [], met => met
  | i, y :: ys, met =>
    meet route (i + 1) ys
      (if y ∈ met.map Prod.snd then met else met ++ [(route ++ [i], y)])

/-- The walk: `met` lists the vertices in the order they were met, and the first `done` of them
have been expanded; the others are its queue. -/
def walk : ℕ → ℕ → List (List ℕ × α) → List (List ℕ × α)
  | 0, _, met => met
  | fuel + 1, done, met =>
    match met[done]? with
    | none => met
    | some (route, x) => walk fuel (done + 1) (meet route 0 (next x) met)

/-- Vertices met once each, each by a route to it, in the order of the routes. -/
structure Sound (start : α) (met : List (List ℕ × α)) : Prop where
  nodup : (met.map Prod.snd).Nodup
  valid : ∀ m ∈ met, follow next start m.1 = some m.2
  sorted : met.Pairwise (fun m m' => Before m.1 m'.1)

/-- A vertex was met by this route, or before it. -/
def MetBy (met : List (List ℕ × α)) (route : List ℕ) (x : α) : Prop :=
  ∃ m ∈ met, m.2 = x ∧ (m.1 = route ∨ Before m.1 route)

/-- **The invariant of the walk.** -/
structure Walked (start : α) (done : ℕ) (met : List (List ℕ × α)) : Prop
    extends Sound next start met where
  begun : ([], start) ∈ met
  closed : ∀ m ∈ met.take done, ∀ i y, (next m.2)[i]? = some y → MetBy met (m.1 ++ [i]) y
  born : ∀ m ∈ met, m.1 = [] ∨ ∃ u ∈ met.take done, ∃ i, m.1 = u.1 ++ [i]
  within : done ≤ met.length

variable {next} {start x : α} {route : List ℕ} {met : List (List ℕ × α)}

omit [DecidableEq α] in
theorem MetBy.mono {met' : List (List ℕ × α)} {y : α} (h : MetBy met route y)
    (hsub : met ⊆ met') : MetBy met' route y := by
  obtain ⟨m, hm, hy, hroute⟩ := h
  exact ⟨m, hsub hm, hy, hroute⟩

/-- **The successors of one vertex.** -/
theorem meet_spec (hx : follow next start route = some x) (ys : List α) : ∀ {i : ℕ}
    {met : List (List ℕ × α)}, (next x).drop i = ys → Sound next start met →
    (∀ m ∈ met, Before m.1 (route ++ [i])) →
    met <+: meet route i ys met ∧ Sound next start (meet route i ys met) ∧
      (∀ m ∈ meet route i ys met, m ∈ met ∨ ∃ j, m.1 = route ++ [j]) ∧
      ∀ j y, i ≤ j → (next x)[j]? = some y → MetBy (meet route i ys met) (route ++ [j]) y := by
  induction ys with
  | nil =>
    intro i met hdrop hsound _
    refine ⟨List.prefix_rfl, hsound, fun m hm => Or.inl hm, fun j y hj hy => ?_⟩
    have hlen : (next x).length ≤ i := List.drop_eq_nil_iff.mp hdrop
    rw [List.getElem?_eq_none (hlen.trans hj)] at hy
    cases hy
  | cons y ys ih =>
    intro i met hdrop hsound hbelow
    have hget : (next x)[i]? = some y := by
      have hhead := congrArg List.head? hdrop
      rwa [List.head?_drop, List.head?_cons] at hhead
    have hrest : (next x).drop (i + 1) = ys := by
      have htail := congrArg List.tail hdrop
      rwa [List.tail_drop, List.tail_cons] at htail
    have hstep : Before (route ++ [i]) (route ++ [i + 1]) := before_snoc route (Nat.lt_succ_self i)
    rw [meet]
    by_cases hmem : y ∈ met.map Prod.snd
    · -- met before: by an earlier route
      rw [if_pos hmem]
      obtain ⟨hbefore, hsound', hnew, hclosed⟩ :=
        ih hrest hsound fun m hm => before_trans (hbelow m hm) hstep
      refine ⟨hbefore, hsound', hnew, fun j z hj hz => ?_⟩
      rcases hj.eq_or_lt with rfl | hlt
      · obtain ⟨m, hm, rfl⟩ := List.mem_map.mp hmem
        rw [hget] at hz
        exact ⟨m, hbefore.subset hm, Option.some.inj hz, Or.inr (hbelow m hm)⟩
      · exact hclosed j z hlt hz
    · rw [if_neg hmem]
      have hgrown : Sound next start (met ++ [(route ++ [i], y)]) := by
        constructor
        · rw [List.map_append, List.map_singleton, List.nodup_append]
          refine ⟨hsound.nodup, List.nodup_singleton y, ?_⟩
          rintro a ha b hb rfl
          have hay : a = y := List.mem_singleton.mp hb
          exact hmem (hay ▸ ha)
        · intro m hm
          rcases List.mem_append.mp hm with hm | hm
          · exact hsound.valid m hm
          · rw [List.mem_singleton.mp hm]
            exact (follow_snoc next hx i).trans hget
        · rw [List.pairwise_append]
          refine ⟨hsound.sorted, List.pairwise_singleton _ _, fun m hm m' hm' => ?_⟩
          rw [List.mem_singleton.mp hm']
          exact hbelow m hm
      obtain ⟨hbefore, hsound', hnew, hclosed⟩ := ih hrest hgrown fun m hm => by
        rcases List.mem_append.mp hm with hm | hm
        · exact before_trans (hbelow m hm) hstep
        · rw [List.mem_singleton.mp hm]
          exact hstep
      refine ⟨(List.prefix_append met _).trans hbefore, hsound', fun m hm => ?_, fun j z hj hz => ?_⟩
      · rcases hnew m hm with hm | hm
        · rcases List.mem_append.mp hm with hm | hm
          · exact Or.inl hm
          · exact Or.inr ⟨i, by rw [List.mem_singleton.mp hm]⟩
        · exact Or.inr hm
      · rcases hj.eq_or_lt with rfl | hlt
        · rw [hget] at hz
          refine ⟨(route ++ [i], y), hbefore.subset (List.mem_append_right _ ?_),
            Option.some.inj hz, Or.inl rfl⟩
          exact List.mem_singleton.mpr rfl
        · exact hclosed j z hlt hz

omit [DecidableEq α] in
/-- A queued vertex comes after all that was met from the vertices before it. -/
theorem Walked.before_queued {done : ℕ} (h : Walked next start done met)
    (hget : met[done]? = some (route, x)) : ∀ m ∈ met, Before m.1 (route ++ [0]) := by
  intro m hm
  rcases h.born m hm with hnil | ⟨u, hu, i, hroute⟩
  · rw [hnil]
    exact nil_before_snoc route 0
  · rw [hroute]
    refine before_snoc_of_before ?_ i 0
    have hsplit : (met.take done ++ met.drop done).Pairwise (fun m m' => Before m.1 m'.1) :=
      (List.take_append_drop done met).symm ▸ h.sorted
    refine (List.pairwise_append.mp hsplit).2.2 u hu (route, x) ?_
    obtain ⟨hlt, hget'⟩ := List.getElem?_eq_some_iff.mp hget
    rw [List.drop_eq_getElem_cons hlt, hget']
    exact List.mem_cons_self

/-- **The step.** -/
theorem Walked.step {done : ℕ} (h : Walked next start done met)
    (hget : met[done]? = some (route, x)) :
    met <+: meet route 0 (next x) met ∧
      Walked next start (done + 1) (meet route 0 (next x) met) := by
  obtain ⟨hlt, hget'⟩ := List.getElem?_eq_some_iff.mp hget
  have hmem : (route, x) ∈ met := hget' ▸ List.getElem_mem hlt
  obtain ⟨hbefore, hsound, hnew, hclosed⟩ :=
    meet_spec (h.valid _ hmem) (next x) (i := 0) rfl h.toSound (h.before_queued hget)
  have htake : (meet route 0 (next x) met).take (done + 1) = met.take done ++ [(route, x)] := by
    obtain ⟨rest, hrest⟩ := hbefore
    rw [← hrest, List.take_append_of_le_length (by omega), List.take_add_one, hget]
    rfl
  refine ⟨hbefore, hsound, hbefore.subset h.begun, fun m hm i y hy => ?_, fun m hm => ?_, ?_⟩
  · rw [htake, List.mem_append, List.mem_singleton] at hm
    rcases hm with hm | rfl
    · exact (h.closed m hm i y hy).mono hbefore.subset
    · exact hclosed i y (Nat.zero_le i) hy
  · rw [htake]
    rcases hnew m hm with hm | ⟨j, hj⟩
    · refine (h.born m hm).imp id ?_
      rintro ⟨u, hu, i, hroute⟩
      exact ⟨u, List.mem_append_left _ hu, i, hroute⟩
    · exact Or.inr ⟨(route, x), List.mem_append_right _ (List.mem_singleton.mpr rfl), j, hj⟩
  · have hle : met.length ≤ (meet route 0 (next x) met).length := hbefore.length_le
    omega

omit [DecidableEq α] in
theorem walked_start (next : α → List α) (start : α) : Walked next start 0 [([], start)] := by
  refine ⟨⟨by simp, by simp [follow], List.pairwise_singleton _ _⟩, List.mem_singleton.mpr rfl,
    by simp, fun m hm => Or.inl ?_, Nat.zero_le _⟩
  rw [List.mem_singleton.mp hm]

/-- A walk meets vertices a route leads to only, each once. -/
theorem Sound.length_le (h : Sound next start met) {nodes : Finset α}
    (hnodes : ∀ route x, follow next start route = some x → x ∈ nodes) :
    met.length ≤ nodes.card := by
  rw [← List.length_map (f := Prod.snd), ← List.toFinset_card_of_nodup h.nodup]
  refine Finset.card_le_card fun y hy => ?_
  obtain ⟨m, hm, rfl⟩ := List.mem_map.mp (List.mem_toFinset.mp hy)
  exact hnodes m.1 m.2 (h.valid m hm)

omit [DecidableEq α] in
/-- A walk that has expanded all it met has met every vertex by a route no later than any. -/
theorem Walked.metBy (h : Walked next start met.length met) (route : List ℕ) :
    ∀ x, follow next start route = some x → MetBy met route x := by
  induction route using List.reverseRecOn with
  | nil =>
    intro x hx
    exact ⟨_, h.begun, Option.some.inj hx, Or.inl rfl⟩
  | append_singleton route i ih =>
    intro x hx
    rw [follow_append, Option.bind_eq_some_iff] at hx
    obtain ⟨u, hu, hstep⟩ := hx
    obtain ⟨m, hm, rfl, hroute⟩ := ih u hu
    have hget : (next m.2)[i]? = some x := by
      rw [← follow_snoc next hu, follow_append, hu]
      exact hstep
    obtain ⟨m', hm', hx, hroute'⟩ := h.closed m (by rwa [List.take_length]) i x hget
    have hlater : m.1 ++ [i] = route ++ [i] ∨ Before (m.1 ++ [i]) (route ++ [i]) :=
      hroute.imp (fun heq => by rw [heq]) fun hbefore => before_snoc_of_before hbefore i i
    refine ⟨m', hm', hx, ?_⟩
    rcases hroute' with heq | hbefore
    · rwa [heq]
    · rcases hlater with heq | hbefore'
      · exact Or.inr (heq ▸ hbefore)
      · exact Or.inr (before_trans hbefore hbefore')

omit [DecidableEq α] in
/-- **The walk meets every vertex by its first route.** -/
theorem Walked.mem_iff (h : Walked next start met.length met) :
    (route, x) ∈ met ↔ FirstRoute next start route x := by
  constructor
  · intro hm
    refine ⟨h.valid _ hm, fun route' hroute' => ?_⟩
    obtain ⟨m, hm', hx, hfirst⟩ := h.metBy route' x hroute'
    have hsame : m = (route, x) := List.inj_on_of_nodup_map h.nodup hm' hm hx
    rw [hsame] at hfirst
    exact hfirst.imp Eq.symm id
  · rintro ⟨hvalid, hfirst⟩
    obtain ⟨m, hm, hx, hroute⟩ := h.metBy route x hvalid
    have hvalid' : follow next start m.1 = some x := hx ▸ h.valid m hm
    have heq : m.1 = route := by
      rcases hroute with heq | hbefore
      · exact heq
      · exact (hfirst m.1 hvalid').resolve_right (not_before_of_before hbefore)
    rwa [← heq, ← hx]

omit [DecidableEq α] in
/-- Every vertex a route leads to has a first route. -/
theorem Walked.exists_first (h : Walked next start met.length met)
    (hx : follow next start route = some x) : ∃ first, FirstRoute next start first x := by
  obtain ⟨m, hm, rfl, -⟩ := h.metBy route x hx
  exact ⟨m.1, h.mem_iff.mp hm⟩

end Walk

end PosseClient.BreadthFirst
