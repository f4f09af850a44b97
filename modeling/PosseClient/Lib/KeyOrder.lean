/-
# Lists that increase in a key

A list whose keys strictly increase is determined, between two bounds, by the bounds:
`between key a b l` is the part of `l` whose keys are after `a` and not after `b`.

* `between_append`: two adjacent parts in order are the part they cover.
* `take_between`: the first elements of a part are the part up to the last of them.
-/
import Mathlib

namespace PosseClient.KeyOrder

variable {α β : Type*} [LinearOrder β] (key : α → β)

/-- The keys strictly increase along the list. -/
def Increasing (l : List α) : Prop := l.Pairwise fun x y => key x < key y

/-- The elements with a key after `a` and not after `b`. -/
def between (a b : β) (l : List α) : List α :=
  l.filter fun x => decide (a < key x ∧ key x ≤ b)

variable {key} {a b c : β} {l : List α} {x : α}

theorem mem_between : x ∈ between key a b l ↔ x ∈ l ∧ a < key x ∧ key x ≤ b := by
  simp [between]

theorem Increasing.sublist {l' : List α} (h : Increasing key l) (hs : l'.Sublist l) :
    Increasing key l' := List.Pairwise.sublist hs h

theorem Increasing.between (h : Increasing key l) : Increasing key (between key a b l) :=
  List.Pairwise.filter _ h

theorem between_eq_nil (h : ∀ x ∈ l, a < key x → ¬ key x ≤ b) : between key a b l = [] := by
  rw [between, List.filter_eq_nil_iff]
  intro x hx
  simpa using h x hx

theorem between_of_le (h : b ≤ a) : between key a b l = [] :=
  between_eq_nil fun _ _ hax hxb => absurd (hax.trans_le hxb) (not_lt.mpr h)

/-- A part of the end of a list is the part of the list, if the start has nothing of it. -/
theorem between_of_append {l₁ l₂ : List α} (h : ∀ x ∈ l₁, a < key x → ¬ key x ≤ b) :
    between key a b (l₁ ++ l₂) = between key a b l₂ := by
  have hnil : between key a b l₁ = [] := between_eq_nil h
  unfold between at hnil ⊢
  rw [List.filter_append, hnil, List.nil_append]

/-- **Two adjacent parts are the part they cover.** -/
theorem between_append (h : Increasing key l) (hac : a ≤ c) (hcb : c ≤ b) :
    between key a c l ++ between key c b l = between key a b l := by
  induction l with
  | nil => rfl
  | cons x l ih =>
    obtain ⟨hx, hl⟩ := List.pairwise_cons.mp h
    have hrec := ih hl
    rcases le_or_gt (key x) c with hxc | hcx
    · -- the head is in the first part or in none
      have hnc : ¬ (c < key x ∧ key x ≤ b) := fun hh => absurd hh.1 (not_lt.mpr hxc)
      by_cases hax : a < key x
      · have h1 : between key a c (x :: l) = x :: between key a c l := by
          simp [between, hax, hxc]
        have h2 : between key c b (x :: l) = between key c b l := by
          simp [between, not_lt.mpr hxc]
        have h3 : between key a b (x :: l) = x :: between key a b l := by
          simp [between, hax, hxc.trans hcb]
        rw [h1, h2, h3, List.cons_append, hrec]
      · have h1 : between key a c (x :: l) = between key a c l := by
          simp [between, hax]
        have h2 : between key c b (x :: l) = between key c b l := by
          simp [between, not_lt.mpr hxc]
        have h3 : between key a b (x :: l) = between key a b l := by
          simp [between, hax]
        rw [h1, h2, h3, hrec]
    · -- everything from the head on is after the first part
      have h1 : between key a c (x :: l) = [] := by
        refine between_eq_nil fun y hy _ => not_le.mpr ?_
        rcases List.mem_cons.mp hy with rfl | hy
        · exact hcx
        · exact hcx.trans (hx y hy)
      rw [h1, List.nil_append]
      refine List.filter_congr fun y hy => ?_
      have hcy : c < key y := by
        rcases List.mem_cons.mp hy with rfl | hy
        · exact hcx
        · exact hcx.trans (hx y hy)
      simp [hcy, hac.trans_lt hcy]

/-- The last of the first elements is not before any of them. -/
theorem Increasing.le_getLast (h : Increasing key l) (hx : l.getLast? = some x) :
    ∀ y ∈ l, key y ≤ key x := by
  intro y hy
  obtain ⟨ys, rfl⟩ := List.getLast?_eq_some_iff.mp hx
  rcases List.mem_append.mp hy with hy | hy
  · exact ((List.pairwise_append.mp h).2.2 y hy x (List.mem_singleton_self x)).le
  · rw [List.mem_singleton.mp hy]

/-- **The first elements of a part are the part up to the last of them.** -/
theorem take_between {k : ℕ} (h : Increasing key l)
    (hx : ((between key a b l).take k).getLast? = some x) :
    (between key a b l).take k = between key a (key x) l := by
  have hsorted : Increasing key (between key a b l) := h.between
  have hmem : x ∈ (between key a b l).take k := List.mem_of_getLast? hx
  have hxb : key x ≤ b := (mem_between.mp (List.mem_of_mem_take hmem)).2.2
  have hax : a ≤ key x := (mem_between.mp (List.mem_of_mem_take hmem)).2.1.le
  have hsplit := List.take_append_drop k (between key a b l)
  rw [← hsplit] at hsorted
  obtain ⟨htake, -, hcross⟩ := List.pairwise_append.mp hsorted
  have hle := Increasing.le_getLast htake hx
  -- filtering the part at the key of `x` leaves exactly its first elements
  have hfilter : (between key a b l).filter (fun y => decide (key y ≤ key x))
      = (between key a b l).take k := by
    rw [← hsplit, List.filter_append, List.filter_eq_self.mpr, List.filter_eq_nil_iff.mpr,
      List.append_nil, hsplit]
    · intro y hy
      simpa using hcross x hmem y hy
    · intro y hy
      simpa using hle y hy
  rw [← hfilter]
  unfold between
  rw [List.filter_filter]
  refine List.filter_congr fun y _ => ?_
  simp only [← Bool.decide_and, decide_eq_decide]
  constructor
  · rintro ⟨hyx, hay, -⟩
    exact ⟨hay, hyx⟩
  · rintro ⟨hay, hyx⟩
    exact ⟨hyx, hay, hyx.trans hxb⟩

end PosseClient.KeyOrder
