/-
# Pages of a sorted selection

The page of a table that a query `WHERE p ORDER BY key LIMIT size` returns, over any records with a
key in a linear order.

* `lt_of_not_mem_pageOf`: a selected record that is not on the page lies behind all of it, and the
  page is full.
* `count_beyond_add_length`: the records beyond the last one of the page are fewer than the selected
  ones, by the length of the page.
-/
import PosseClient.Lib.KeySort

namespace PosseClient.KeysetPages

open PosseClient.KeySort

variable {α β : Type*} [LinearOrder β] {key : α → β} {le : α → α → Bool} {p : α → Bool}
  {rows : List α} {size : ℕ}

/-- `SELECT … WHERE p ORDER BY le LIMIT size`. -/
def pageOf (le : α → α → Bool) (p : α → Bool) (size : ℕ) (rows : List α) : List α :=
  ((rows.filter p).mergeSort le).take size

theorem mem_of_mem_pageOf {a : α} (h : a ∈ pageOf le p size rows) : a ∈ rows ∧ p a = true := by
  have hmem : a ∈ (rows.filter p).mergeSort le := List.mem_of_mem_take h
  exact List.mem_filter.mp ((List.mergeSort_perm _ _).mem_iff.mp hmem)

theorem length_pageOf_le : (pageOf le p size rows).length ≤ size := List.length_take_le _ _

/-- A page with no records selects none, unless it may have none. -/
theorem pageOf_ne_nil (hsize : 0 < size) {a : α} (hmem : a ∈ rows) (hp : p a = true) :
    pageOf le p size rows ≠ [] := by
  have hsel : a ∈ (rows.filter p).mergeSort le :=
    (List.mergeSort_perm _ _).mem_iff.mpr (List.mem_filter.mpr ⟨hmem, hp⟩)
  intro hnil
  rcases List.take_eq_nil_iff.mp hnil with h | h
  · omega
  · rw [h] at hsel
    exact List.not_mem_nil hsel

/-- The last record of a page has its greatest key. -/
theorem le_last_of_mem_pageOf (hle : ∀ a b, le a b = true ↔ key a ≤ key b) {a b : α}
    (ha : a ∈ pageOf le p size rows) (hb : (pageOf le p size rows).getLast? = some b) :
    key a ≤ key b := by
  have hsorted : (pageOf le p size rows).Pairwise fun a b => key a ≤ key b :=
    (pairwise_mergeSort hle _).sublist (List.take_sublist _ _)
  obtain ⟨front, hfront⟩ := List.getLast?_eq_some_iff.mp hb
  rw [hfront] at ha hsorted
  rcases List.mem_append.mp ha with h | h
  · exact (List.pairwise_append.mp hsorted).2.2 a h b (List.mem_singleton_self b)
  · rw [List.mem_singleton.mp h]

/-- A page increases strictly, where the key tells the records apart. -/
theorem pairwise_lt_pageOf (hle : ∀ a b, le a b = true ↔ key a ≤ key b)
    (hkey : ∀ a ∈ rows, ∀ b ∈ rows, key a = key b → a = b) (hnodup : rows.Nodup) :
    (pageOf le p size rows).Pairwise fun a b => key a < key b := by
  have hsorted : (pageOf le p size rows).Pairwise fun a b => key a ≤ key b :=
    (pairwise_mergeSort hle _).sublist (List.take_sublist _ _)
  have hdistinct : (pageOf le p size rows).Nodup :=
    ((List.mergeSort_perm _ le).nodup_iff.mpr (hnodup.filter p)).sublist (List.take_sublist _ _)
  refine (hsorted.and hdistinct).imp_of_mem fun ha hb hab => ?_
  refine lt_of_le_of_ne hab.1 fun heq => hab.2 ?_
  exact hkey _ (mem_of_mem_pageOf ha).1 _ (mem_of_mem_pageOf hb).1 heq

/-- Part of the condition may be met beforehand. -/
theorem pageOf_filter (q : α → Bool) :
    pageOf le p size (rows.filter q) = pageOf le (fun a => q a && p a) size rows := by
  rw [pageOf, pageOf, List.filter_filter]
  congr 2
  exact List.filter_congr fun a _ => Bool.and_comm _ _

/-- **What is not on the page lies behind it**, and the page is full. -/
theorem lt_of_not_mem_pageOf (hle : ∀ a b, le a b = true ↔ key a ≤ key b)
    (hkey : ∀ a ∈ rows, ∀ b ∈ rows, key a = key b → a = b) {a : α} (hmem : a ∈ rows)
    (hp : p a = true) (hnot : a ∉ pageOf le p size rows) :
    (pageOf le p size rows).length = size ∧ ∀ b ∈ pageOf le p size rows, key b < key a := by
  have hsel : a ∈ (rows.filter p).mergeSort le :=
    (List.mergeSort_perm _ _).mem_iff.mpr (List.mem_filter.mpr ⟨hmem, hp⟩)
  constructor
  · rw [pageOf, List.length_take, min_eq_left_iff]
    by_contra hshort
    have hall : pageOf le p size rows = (rows.filter p).mergeSort le :=
      List.take_of_length_le (by omega)
    exact hnot (hall ▸ hsel)
  · intro b hb
    have hsorted := pairwise_mergeSort hle (rows.filter p)
    rw [← List.take_append_drop size ((rows.filter p).mergeSort le)] at hsel hsorted
    have hdrop : a ∈ ((rows.filter p).mergeSort le).drop size :=
      (List.mem_append.mp hsel).resolve_left hnot
    have hba : key b ≤ key a := (List.pairwise_append.mp hsorted).2.2 b hb a hdrop
    refine lt_of_le_of_ne hba fun heq => hnot ?_
    rw [← hkey b (mem_of_mem_pageOf hb).1 a hmem heq]
    exact hb

/-- **What is left is less**, by the length of the page. -/
theorem count_beyond_add_length {bound : β}
    (hbound : ∀ a ∈ pageOf le p size rows, key a ≤ bound) :
    rows.countP (fun a => p a && decide (bound < key a)) + (pageOf le p size rows).length ≤
      rows.countP p := by
  let sorted := (rows.filter p).mergeSort le
  have hperm : sorted.Perm (rows.filter p) := List.mergeSort_perm _ _
  have htotal : rows.countP p = sorted.length := by
    rw [List.countP_eq_length_filter, hperm.length_eq]
  have hbeyond : rows.countP (fun a => p a && decide (bound < key a)) =
      sorted.countP fun a => decide (bound < key a) := by
    rw [hperm.countP_eq, List.countP_filter]
    exact List.countP_congr fun a _ => by rw [Bool.and_comm]
  have hpage : (sorted.take size).countP (fun a => decide (bound < key a)) = 0 := by
    rw [List.countP_eq_zero]
    intro a ha
    rw [decide_eq_true_eq, not_lt]
    exact hbound a ha
  have hsplit : sorted.countP (fun a => decide (bound < key a)) =
      (sorted.take size).countP (fun a => decide (bound < key a)) +
        (sorted.drop size).countP (fun a => decide (bound < key a)) := by
    rw [← List.countP_append, List.take_append_drop]
  have hrest : (sorted.drop size).countP (fun a => decide (bound < key a)) ≤
      (sorted.drop size).length := List.countP_le_length
  have hlength : (sorted.take size).length + (sorted.drop size).length = sorted.length := by
    rw [← List.length_append, List.take_append_drop]
  rw [hbeyond, htotal, hsplit, hpage]
  change 0 + _ + (sorted.take size).length ≤ _
  omega

end PosseClient.KeysetPages
