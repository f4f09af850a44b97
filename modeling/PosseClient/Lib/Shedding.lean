/-
# Dropping rows from the front until the rest fits

A queue that gives up its first elements until what is left passes a test, and the order in which a
database reads them one by one.

* `kept`, `kept_spec`: the shortest prefix goes.
* `inOrder`: rows by a key.
* `first_eq_head`, `inOrder_tail`: reading the first row, and the order without it.
* `select_updateWhere`: rows that an update takes out of a selection.
-/
import PosseClient.Lib.Table

namespace PosseClient.Shedding

open Table

variable {α β : Type*}

/-! ## 1. The shortest prefix -/

/-- What is left when the front is dropped until the rest fits. -/
def kept (fits : List α → Bool) : List α → List α
  | [] => []
  | x :: rest => if fits (x :: rest) then x :: rest else kept fits rest

/-- **The shortest prefix is dropped** whose removal makes the rest fit, or everything. -/
theorem kept_spec (fits : List α → Bool) (l : List α) :
    ∃ k ≤ l.length, kept fits l = l.drop k ∧ (fits (l.drop k) = true ∨ l.drop k = []) ∧
      ∀ j < k, fits (l.drop j) = false := by
  induction l with
  | nil => exact ⟨0, le_rfl, rfl, Or.inr rfl, by simp⟩
  | cons x rest ih =>
    by_cases hfits : fits (x :: rest) = true
    · exact ⟨0, Nat.zero_le _, by simp [kept, hfits], Or.inl hfits, by simp⟩
    · rcases ih with ⟨k, hk, hkept, hdone, hleast⟩
      refine ⟨k + 1, ?_, by simp [kept, hfits, hkept], hdone, ?_⟩
      · rw [List.length_cons]
        omega
      · intro j hj
        cases j with
        | zero => simpa using hfits
        | succ j => exact hleast j (by omega)

/-! ## 2. Rows by a key -/

section Keys

variable [LinearOrder β] {key : α → β} {l : List α}

/-- The rows in the order of their keys. -/
def inOrder (key : α → β) (l : List α) : List α :=
  l.mergeSort fun x y => decide (key x ≤ key y)

theorem inOrder_perm (key : α → β) (l : List α) : (inOrder key l).Perm l := List.mergeSort_perm l _

theorem mem_inOrder {x : α} : x ∈ inOrder key l ↔ x ∈ l := (inOrder_perm key l).mem_iff

theorem inOrder_pairwise (key : α → β) (l : List α) :
    (inOrder key l).Pairwise fun x y => key x ≤ key y := by
  have hsorted : (inOrder key l).Pairwise fun x y => decide (key x ≤ key y) = true :=
    List.pairwise_mergeSort
      (fun a b c hab hbc => by simpa using le_trans (of_decide_eq_true hab) (of_decide_eq_true hbc))
      (fun a b => by simpa using le_total (key a) (key b)) l
  exact hsorted.imp fun h => of_decide_eq_true h

/-- Rows whose keys tell them apart have one order. -/
theorem inOrder_eq {l' : List α} (hinj : ∀ x ∈ l, ∀ y ∈ l, key x = key y → x = y)
    (hperm : l'.Perm l) (hsorted : l'.Pairwise fun x y => key x ≤ key y) : inOrder key l = l' := by
  refine List.Perm.eq_of_pairwise ?_ (inOrder_pairwise key l) hsorted
    ((inOrder_perm key l).trans hperm.symm)
  intro x y hx hy hxy hyx
  exact hinj x (mem_inOrder.mp hx) y (hperm.mem_iff.mp hy) (le_antisymm hxy hyx)

/-- `ORDER BY key LIMIT 1` reads a row that is not after any other. -/
theorem first_le {x : α} (h : first (fun x y => decide (key x < key y)) l = some x) :
    ∀ y ∈ l, key x ≤ key y := by
  induction l generalizing x with
  | nil => cases h
  | cons a l ih =>
    rw [first] at h
    intro y hy
    cases hfirst : first (fun x y => decide (key x < key y)) l with
    | none =>
      rw [hfirst] at h
      cases h
      rw [first_eq_none hfirst, List.mem_singleton] at hy
      rw [hy]
    | some z =>
      rw [hfirst] at h
      have hz := ih hfirst
      dsimp only at h
      split at h
      case isTrue hlt =>
        have hlt := of_decide_eq_true hlt
        cases h
        rcases List.mem_cons.mp hy with rfl | hy
        · exact hlt.le
        · exact hz y hy
      case isFalse hle =>
        have hle : key a ≤ key z := not_lt.mp fun hlt => hle (decide_eq_true hlt)
        cases h
        rcases List.mem_cons.mp hy with rfl | hy
        · exact le_rfl
        · exact hle.trans (hz y hy)

/-- **Reading the first row** reads the head of the order. -/
theorem first_eq_head (hinj : ∀ x ∈ l, ∀ y ∈ l, key x = key y → x = y) :
    first (fun x y => decide (key x < key y)) l = (inOrder key l).head? := by
  cases hfirst : first (fun x y => decide (key x < key y)) l with
  | none =>
    have hnil : inOrder key l = [] := by
      rw [← List.length_eq_zero_iff, (inOrder_perm key l).length_eq, first_eq_none hfirst]
      rfl
    rw [hnil, List.head?_nil]
  | some x =>
    cases horder : inOrder key l with
    | nil =>
      have hmem := (inOrder_perm key l).mem_iff.mpr (first_mem hfirst)
      rw [horder] at hmem
      cases hmem
    | cons y rest =>
      have hy : y ∈ l := mem_inOrder.mp (by rw [horder]; exact List.mem_cons_self)
      have hsorted := inOrder_pairwise key l
      have hx : x ∈ y :: rest := horder ▸ mem_inOrder.mpr (first_mem hfirst)
      rw [horder, List.pairwise_cons] at hsorted
      have hle : key y ≤ key x := by
        rcases List.mem_cons.mp hx with rfl | hx
        · exact le_rfl
        · exact hsorted.1 x hx
      rw [List.head?_cons,
        hinj x (first_mem hfirst) y hy (le_antisymm (first_le hfirst y hy) hle)]

/-- **The order without its head** is the order of the other rows. -/
theorem inOrder_tail {x : α} {rest : List α} (hnodup : l.Nodup)
    (hinj : ∀ x ∈ l, ∀ y ∈ l, key x = key y → x = y) (h : inOrder key l = x :: rest)
    {p : α → Bool} (hp : ∀ y ∈ l, p y = true ↔ y ≠ x) : inOrder key (l.filter p) = rest := by
  have hperm : (x :: rest).Perm l := h ▸ inOrder_perm key l
  have hx : x ∈ l := hperm.mem_iff.mp List.mem_cons_self
  have hnodup' : (x :: rest).Nodup := hperm.nodup_iff.mpr hnodup
  have hdrop : (x :: rest).filter p = rest := by
    have hpx : p x = false := by
      rw [← Bool.not_eq_true, hp x hx]
      simp
    rw [List.filter_cons_of_neg (by simp [hpx]), List.filter_eq_self]
    intro y hy
    rw [hp y (hperm.mem_iff.mp (List.mem_cons_of_mem x hy))]
    rintro rfl
    exact (List.nodup_cons.mp hnodup').1 hy
  refine inOrder_eq ?_ ?_ ?_
  · intro y hy z hz
    exact hinj y (List.mem_of_mem_filter hy) z (List.mem_of_mem_filter hz)
  · have hfilter := hperm.filter p
    rwa [hdrop] at hfilter
  · have hsorted := inOrder_pairwise key l
    rw [h] at hsorted
    exact (List.pairwise_cons.mp hsorted).2

end Keys

/-! ## 3. Rows after an update -/

/-- Rows that no longer belong to a selection once they are updated are missing from it. -/
theorem select_updateWhere {l : List α} {p q : α → Bool} {f : α → α}
    (h : ∀ x ∈ l, p x = true → q (f x) = false) :
    (updateWhere p f l).filter q = (l.filter q).filter fun x => !p x := by
  induction l with
  | nil => rfl
  | cons x l ih =>
    have hrest := ih fun y hy => h y (List.mem_cons_of_mem x hy)
    rw [updateWhere_cons, List.filter_cons, List.filter_cons, hrest]
    cases hp : p x with
    | true =>
      have hq := h x List.mem_cons_self hp
      cases hqx : q x with
      | true => simp [hp, hq]
      | false => simp [hq]
    | false =>
      cases hqx : q x with
      | true => simp [hp, hqx]
      | false => simp [hqx]

/-- Rows changed twice, one by one. -/
theorem forall₂_comp {γ δ : Type*} {R : α → γ → Prop} {S : γ → δ → Prop} {T : α → δ → Prop}
    {as : List α} {bs : List γ} {cs : List δ} (hab : List.Forall₂ R as bs)
    (hbc : List.Forall₂ S bs cs) (h : ∀ a ∈ as, ∀ b c, R a b → S b c → T a c) :
    List.Forall₂ T as cs := by
  induction hab generalizing cs with
  | nil =>
    cases hbc
    exact .nil
  | @cons a b as bs hR hab ih =>
    cases hbc with
    | cons hS hbc =>
      refine .cons (h a List.mem_cons_self _ _ hR hS) (ih hbc ?_)
      intro a' ha'
      exact h a' (List.mem_cons_of_mem a ha')

end PosseClient.Shedding
