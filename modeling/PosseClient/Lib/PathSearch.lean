/-
# Searches for a path

Depth-first search of a directed graph for a target, with a stack of pending vertices that are
marked when they are popped, each with the path to it.

* `findPath`: the path to the first target seen from a popped vertex.
* `findPath_spec`: the search ends; it finds a path exactly where there is one, and what it finds is
  one (`Leads`).
-/
import PosseClient.Lib.GraphSearch

namespace PosseClient.GraphSearch

open Relation

variable {α : Type*} (next : α → List α)

/-! ## 1. Paths -/

/-- A path from the start, as the list of its vertices. -/
inductive Leads (start : α) : List α → α → Prop
  | start : Leads start [start] start
  | snoc {path : List α} {x y : α} : Leads start path x → y ∈ next x → Leads start (path ++ [y]) y

variable {next} in
theorem Leads.reaches {start x : α} {path : List α} (h : Leads next start path x) :
    ReflTransGen (Step next) start x := by
  induction h with
  | start => exact ReflTransGen.refl
  | snoc _ hstep ih => exact ih.tail hstep

/-! ## 2. The search -/

section Dive

variable [DecidableEq α]

/-- The successors of a vertex that are not seen go onto the stack with the path to each, until one
of them is the target. -/
def pushUnseen (target : α) (seen path : List α) :
    List α → List (α × List α) → Except (List α) (List (α × List α))
  | [], stack => .ok stack
  | y :: ys, stack =>
    if y ∈ seen then pushUnseen target seen path ys stack
    else if y = target then .error (path ++ [y])
    else pushUnseen target seen path ys ((y, path ++ [y]) :: stack)

/-- Depth-first search for a path to a target other than the start, with a stack of pending
vertices, marked when they are popped; `none` where the fuel runs out. -/
def dive (target : α) : ℕ → List α → List (α × List α) → Option (Option (List α))
  | 0, _, _ => none
  | _ + 1, _, [] => some none
  | fuel + 1, seen, (x, path) :: stack =>
    if x ∈ seen then dive target fuel seen stack
    else
      match pushUnseen target (x :: seen) path (next x) stack with
      | .error found => some (some found)
      | .ok stack => dive target fuel (x :: seen) stack

/-- The search, with fuel for a graph whose edges leave these vertices. -/
def findPath (vertices : Finset α) (start target : α) : Option (List α) :=
  (dive next target (2 + ∑ x ∈ vertices, (next x).length) [] [(start, [start])]).join

variable {next} {start target : α} {seen : List α} {stack : List (α × List α)}

/-- What a search holds while it has not found the target. -/
structure Diving (next : α → List α) (start target : α) (seen : List α)
    (stack : List (α × List α)) : Prop where
  leads : ∀ m ∈ stack, Leads next start m.2 m.1
  begun : start ∈ seen ∨ start ∈ stack.map Prod.fst
  absent : target ∉ seen ∧ target ∉ stack.map Prod.fst
  closed : ∀ x ∈ seen, ∀ y ∈ next x, y ∈ seen ∨ y ∈ stack.map Prod.fst

theorem pushUnseen_error {path found : List α} : ∀ {ys : List α} {stack : List (α × List α)},
    pushUnseen target seen path ys stack = .error found →
      target ∈ ys ∧ found = path ++ [target] := by
  intro ys
  induction ys with
  | nil =>
    intro stack h
    cases h
  | cons y ys ih =>
    intro stack h
    rw [pushUnseen] at h
    split at h
    case isTrue =>
      exact ⟨List.mem_cons_of_mem y (ih h).1, (ih h).2⟩
    case isFalse =>
      split at h
      case isTrue heq =>
        subst heq
        cases h
        exact ⟨List.mem_cons_self, rfl⟩
      case isFalse =>
        exact ⟨List.mem_cons_of_mem y (ih h).1, (ih h).2⟩

theorem pushUnseen_ok {path : List α} : ∀ {ys : List α} {stack stack' : List (α × List α)},
    pushUnseen target seen path ys stack = .ok stack' →
      ∃ fresh, stack' = fresh ++ stack ∧ fresh.length ≤ ys.length ∧
        (∀ m ∈ fresh, m.1 ∈ ys ∧ m.1 ≠ target ∧ m.2 = path ++ [m.1]) ∧
        ∀ y ∈ ys, y ∈ seen ∨ y ∈ stack'.map Prod.fst := by
  intro ys
  induction ys with
  | nil =>
    intro stack stack' h
    cases h
    exact ⟨[], rfl, le_rfl, by simp, by simp⟩
  | cons y ys ih =>
    intro stack stack' h
    rw [pushUnseen] at h
    split at h
    case isTrue hseen =>
      obtain ⟨fresh, hstack, hlen, hfresh, hys⟩ := ih h
      refine ⟨fresh, hstack, hlen.trans (Nat.le_succ _), fun m hm => ?_, fun z hz => ?_⟩
      · exact ⟨List.mem_cons_of_mem y (hfresh m hm).1, (hfresh m hm).2⟩
      · rcases List.mem_cons.mp hz with rfl | hz
        · exact Or.inl hseen
        · exact hys z hz
    case isFalse hseen =>
      split at h
      case isTrue => cases h
      case isFalse hne =>
        obtain ⟨fresh, hstack, hlen, hfresh, hys⟩ := ih h
        refine ⟨fresh ++ [(y, path ++ [y])], ?_, ?_, fun m hm => ?_, fun z hz => ?_⟩
        · rw [hstack, List.append_assoc]
          rfl
        · rw [List.length_append, List.length_singleton, List.length_cons]
          exact Nat.succ_le_succ hlen
        · rcases List.mem_append.mp hm with hm | hm
          · exact ⟨List.mem_cons_of_mem y (hfresh m hm).1, (hfresh m hm).2⟩
          · rw [List.mem_singleton.mp hm]
            exact ⟨List.mem_cons_self, hne, rfl⟩
        · rcases List.mem_cons.mp hz with rfl | hz
          · refine Or.inr (List.mem_map.mpr ⟨(z, path ++ [z]), ?_, rfl⟩)
            rw [hstack]
            exact List.mem_append_right _ List.mem_cons_self
          · exact hys z hz

/-- The stack, and the edges that leave vertices not seen. -/
def load (next : α → List α) (vertices : Finset α) (seen : List α) (stack : List (α × List α)) :
    ℕ :=
  stack.length + ∑ x ∈ vertices.filter (· ∉ seen), (next x).length

theorem load_cons {vertices : Finset α} (hvertices : ∀ x, next x ≠ [] → x ∈ vertices) {x : α}
    (hx : x ∉ seen) :
    (∑ y ∈ vertices.filter (· ∉ x :: seen), (next y).length) + (next x).length =
      ∑ y ∈ vertices.filter (· ∉ seen), (next y).length := by
  have hsplit : vertices.filter (· ∉ x :: seen) = (vertices.filter (· ∉ seen)).erase x := by
    ext y
    simp only [Finset.mem_filter, Finset.mem_erase, List.mem_cons, not_or]
    tauto
  rw [hsplit]
  by_cases hmem : x ∈ vertices
  · exact Finset.sum_erase_add _ _ (Finset.mem_filter.mpr ⟨hmem, hx⟩)
  · have hnil : next x = [] := by
      by_contra hne
      exact hmem (hvertices x hne)
    rw [hnil, List.length_nil, Nat.add_zero, Finset.erase_eq_of_notMem]
    exact fun h => hmem (Finset.mem_filter.mp h).1

/-- **The search**: it ends, with a path exactly where there is one. -/
theorem dive_spec {vertices : Finset α} (hvertices : ∀ x, next x ≠ [] → x ∈ vertices) :
    ∀ {fuel : ℕ} {seen : List α} {stack : List (α × List α)}, Diving next start target seen stack →
      load next vertices seen stack < fuel →
      (∃ found x, dive next target fuel seen stack = some (some found) ∧
        Leads next start found target ∧ ReflTransGen (Step next) start x ∧ target ∈ next x) ∨
      dive next target fuel seen stack = some none ∧ ¬ TransGen (Step next) start target := by
  intro fuel
  induction fuel with
  | zero => exact fun _ h => absurd h (Nat.not_lt_zero _)
  | succ fuel ih =>
    intro seen stack h hfuel
    match stack with
    | [] =>
      refine Or.inr ⟨rfl, fun hpath => ?_⟩
      -- what is seen is closed under successors, and the target is not among it
      obtain ⟨x, hx, hstep⟩ := TransGen.tail'_iff.mp hpath
      have hclosed : ∀ y, y ∈ seen → ∀ z ∈ next y, z ∈ seen := by
        intro y hy z hz
        exact (h.closed y hy z hz).resolve_right List.not_mem_nil
      have hstart : start ∈ seen := h.begun.resolve_right List.not_mem_nil
      exact h.absent.1 (hclosed x (mem_of_closed (S := (· ∈ seen)) hclosed hstart hx) target hstep)
    | (x, path) :: stack =>
      have hleads : Leads next start path x := h.leads (x, path) List.mem_cons_self
      rw [dive]
      by_cases hseen : x ∈ seen
      · rw [if_pos hseen]
        refine ih ⟨fun m hm => h.leads m (List.mem_cons_of_mem _ hm), ?_, ?_, ?_⟩ ?_
        · rcases h.begun with hstart | hstart
          · exact Or.inl hstart
          · rcases List.mem_cons.mp hstart with rfl | hstart
            · exact Or.inl hseen
            · exact Or.inr hstart
        · exact ⟨h.absent.1, fun hmem => h.absent.2 (List.mem_cons_of_mem _ hmem)⟩
        · intro y hy z hz
          rcases h.closed y hy z hz with hin | hin
          · exact Or.inl hin
          · rcases List.mem_cons.mp hin with rfl | hin
            · exact Or.inl hseen
            · exact Or.inr hin
        · unfold load at hfuel ⊢
          rw [List.length_cons] at hfuel
          omega
      · rw [if_neg hseen]
        have hne : target ≠ x := fun heq => h.absent.2 (heq ▸ List.mem_cons_self)
        cases hpush : pushUnseen target (x :: seen) path (next x) stack with
        | error found =>
          obtain ⟨htarget, rfl⟩ := pushUnseen_error hpush
          exact Or.inl ⟨_, x, rfl, hleads.snoc htarget, hleads.reaches, htarget⟩
        | ok stack' =>
          obtain ⟨fresh, rfl, hlen, hfresh, hys⟩ := pushUnseen_ok hpush
          refine ih ⟨fun m hm => ?_, ?_, ⟨?_, ?_⟩, ?_⟩ ?_
          · rcases List.mem_append.mp hm with hm | hm
            · obtain ⟨hmem, -, hpath⟩ := hfresh m hm
              rw [hpath]
              exact hleads.snoc hmem
            · exact h.leads m (List.mem_cons_of_mem _ hm)
          · rcases h.begun with hstart | hstart
            · exact Or.inl (List.mem_cons_of_mem x hstart)
            · rcases List.mem_cons.mp hstart with rfl | hstart
              · exact Or.inl List.mem_cons_self
              · refine Or.inr ?_
                rw [List.map_append]
                exact List.mem_append_right _ hstart
          · intro hmem
            rcases List.mem_cons.mp hmem with heq | hmem
            · exact hne heq
            · exact h.absent.1 hmem
          · rw [List.map_append, List.mem_append, not_or]
            refine ⟨fun hmem => ?_, fun hmem => h.absent.2 (List.mem_cons_of_mem _ hmem)⟩
            obtain ⟨m, hm, heq⟩ := List.mem_map.mp hmem
            exact (hfresh m hm).2.1 heq
          · intro y hy z hz
            rcases List.mem_cons.mp hy with rfl | hy
            · exact hys z hz
            · rcases h.closed y hy z hz with hin | hin
              · exact Or.inl (List.mem_cons_of_mem x hin)
              · rcases List.mem_cons.mp hin with rfl | hin
                · exact Or.inl List.mem_cons_self
                · refine Or.inr ?_
                  rw [List.map_append]
                  exact List.mem_append_right _ hin
          · have hload := load_cons hvertices hseen
            unfold load at hfuel ⊢
            rw [List.length_cons] at hfuel
            rw [List.length_append]
            omega

/-- **A path is found exactly where there is one.** -/
theorem findPath_spec {vertices : Finset α} (hvertices : ∀ x, next x ≠ [] → x ∈ vertices)
    (hne : start ≠ target) :
    (∃ found, findPath next vertices start target = some found ∧
      Leads next start found target ∧ TransGen (Step next) start target) ∨
    findPath next vertices start target = none ∧ ¬ TransGen (Step next) start target := by
  have hdiving : Diving next start target [] [(start, [start])] := by
    refine ⟨fun m hm => ?_, Or.inr List.mem_cons_self, ⟨List.not_mem_nil, fun hmem => ?_⟩, ?_⟩
    · rw [List.mem_singleton.mp hm]
      exact .start
    · exact hne (List.mem_singleton.mp hmem).symm
    · exact fun x hx => absurd hx List.not_mem_nil
  have hload : load next vertices [] [(start, [start])] <
      2 + ∑ x ∈ vertices, (next x).length := by
    unfold load
    rw [Finset.filter_true_of_mem fun x _ => List.not_mem_nil, List.length_singleton]
    omega
  unfold findPath
  rcases dive_spec hvertices hdiving hload with ⟨found, x, hfound, hleads, hx, hstep⟩ | ⟨hnone, hno⟩
  · exact Or.inl ⟨found, by rw [hfound]; rfl, hleads, TransGen.tail' hx hstep⟩
  · exact Or.inr ⟨by rw [hnone]; rfl, hno⟩

end Dive

end PosseClient.GraphSearch
