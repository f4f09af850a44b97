/-
# Replacing several parts of a list

Parts of a list, each with what takes its place.  Replacing them one after the other, the last one
first, is one pass over the list: what lies between the parts is kept.
-/
import Mathlib

namespace PosseClient.Splices

variable {α σ : Type*} (start stop : σ → ℕ) (text : σ → List α)

/-- The list with one part replaced. -/
def replaceAt (l : List α) (s : σ) : List α := l.take (start s) ++ text s ++ l.drop (stop s)

/-- One pass over the list from `cursor` on: what is kept before each part, and its text. -/
def splice : ℕ → List α → List σ → List α
  | cursor, l, [] => l.drop cursor
  | cursor, l, s :: rest =>
    (l.drop cursor).take (start s - cursor) ++ text s ++ splice (stop s) l rest

/-- Parts in order, none of which overlaps the next. -/
structure InOrder (l : List α) (parts : List σ) : Prop where
  start_le : ∀ s ∈ parts, start s ≤ stop s
  stop_le : ∀ s ∈ parts, stop s ≤ l.length
  pairwise : parts.Pairwise fun s t => stop s ≤ start t

variable {start stop text} {l : List α} {parts : List σ} {s : σ} {cursor : ℕ}

theorem InOrder.tail (h : InOrder start stop l (s :: parts)) : InOrder start stop l parts :=
  ⟨fun t ht => h.start_le t (List.mem_cons_of_mem _ ht),
    fun t ht => h.stop_le t (List.mem_cons_of_mem _ ht), (List.pairwise_cons.mp h.pairwise).2⟩

variable (text) in
/-- What lies before all parts is kept. -/
theorem take_append_splice (h : InOrder start stop l parts)
    (hcursor : ∀ s ∈ parts, cursor ≤ start s) :
    parts.reverse.foldl (replaceAt start stop text) l =
      l.take cursor ++ splice start stop text cursor l parts := by
  induction parts generalizing cursor with
  | nil => simp [splice]
  | cons s parts ih =>
    have hstart := h.start_le s List.mem_cons_self
    have hstop := h.stop_le s List.mem_cons_self
    have hle := hcursor s List.mem_cons_self
    have hrest := ih h.tail (List.pairwise_cons.mp h.pairwise).1
    have hlen : (l.take (stop s)).length = stop s := List.length_take_of_le hstop
    have hbefore : (l.take (stop s) ++ splice start stop text (stop s) l parts).take (start s) =
        l.take (start s) := by
      rw [List.take_append_of_le_length (by omega), List.take_take, min_eq_left hstart]
    have hafter : (l.take (stop s) ++ splice start stop text (stop s) l parts).drop (stop s) =
        splice start stop text (stop s) l parts := by
      rw [List.drop_append_of_le_length hlen.ge, List.drop_eq_nil_of_le hlen.le, List.nil_append]
    have hkept : l.take (start s) = l.take cursor ++ (l.drop cursor).take (start s - cursor) := by
      rw [← List.take_add, Nat.add_sub_cancel' hle]
    calc (s :: parts).reverse.foldl (replaceAt start stop text) l
        = replaceAt start stop text (parts.reverse.foldl (replaceAt start stop text) l) s := by
          rw [List.reverse_cons, List.foldl_append]
          rfl
      _ = l.take (start s) ++ text s ++ splice start stop text (stop s) l parts := by
          rw [hrest, replaceAt, hbefore, hafter]
      _ = l.take cursor ++ splice start stop text cursor l (s :: parts) := by
          rw [hkept, splice, List.append_assoc, List.append_assoc, List.append_assoc]

/-- **From the back, or in one pass.** -/
theorem foldl_reverse_eq_splice (h : InOrder start stop l parts) :
    parts.reverse.foldl (replaceAt start stop text) l = splice start stop text 0 l parts := by
  simpa using take_append_splice text h fun s _ => Nat.zero_le (start s)

variable (text) in
/-- The lengths before and after: nothing else is lost or made. -/
theorem length_splice (h : InOrder start stop l parts) (hcursor : ∀ s ∈ parts, cursor ≤ start s)
    (hle : cursor ≤ l.length) :
    (splice start stop text cursor l parts).length + (parts.map fun s => stop s - start s).sum +
        cursor = l.length + (parts.map fun s => (text s).length).sum := by
  induction parts generalizing cursor with
  | nil =>
    simp [splice]
    omega
  | cons s parts ih =>
    have hstart := h.start_le s List.mem_cons_self
    have hstop := h.stop_le s List.mem_cons_self
    have hfrom := hcursor s List.mem_cons_self
    have hrest := ih h.tail (List.pairwise_cons.mp h.pairwise).1 hstop
    simp only [splice, List.length_append, List.length_take, List.length_drop, List.map_cons,
      List.sum_cons]
    omega

end PosseClient.Splices
