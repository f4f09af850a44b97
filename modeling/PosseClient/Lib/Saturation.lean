/-
# Passes over a list until nothing changes

A step for each item, the items gone through again and again until a pass changes nothing.

* `saturate_invariant`: what every step keeps is kept.
* `saturate_fixed`: with fuel for every growth no step changes the result.
* `saturate_marks_fixed`: where every step marks the key of its item, one growth an item is enough.
-/
import Mathlib

namespace PosseClient.Saturation

/-! ## 1. The loop -/

variable {σ α : Type*} (turn : σ → α → σ) (size : σ → ℕ) (items : List α)

/-- Passes over the items, until one does not grow the state. -/
def saturate : ℕ → σ → σ
  | 0, s => s
  | fuel + 1, s =>
    let s' := items.foldl turn s
    if size s' = size s then s' else saturate fuel s'

variable {turn size items}

theorem foldl_invariant {P : σ → Prop} (h : ∀ s, ∀ a ∈ items, P s → P (turn s a)) {s : σ}
    (hs : P s) : P (items.foldl turn s) := by
  induction items generalizing s with
  | nil => exact hs
  | cons a items ih =>
    exact ih (fun s b hb => h s b (List.mem_cons_of_mem _ hb)) (h s a List.mem_cons_self hs)

/-- **What every step keeps is kept.** -/
theorem saturate_invariant {P : σ → Prop} (h : ∀ s, ∀ a ∈ items, P s → P (turn s a)) (fuel : ℕ)
    {s : σ} (hs : P s) : P (saturate turn size items fuel s) := by
  induction fuel generalizing s with
  | zero => exact hs
  | succ fuel ih =>
    rw [saturate]
    split_ifs
    · exact foldl_invariant h hs
    · exact ih (foldl_invariant h hs)

/-- A step does nothing, or it grows the state and uses up some of a measure. -/
def Grows (turn : σ → α → σ) (size μ : σ → ℕ) (items : List α) : Prop :=
  ∀ s, ∀ a ∈ items, turn s a = s ∨ (size s < size (turn s a) ∧ μ (turn s a) < μ s)

variable {μ : σ → ℕ}

theorem Grows.foldl (h : Grows turn size μ items) (s : σ) :
    (∀ a ∈ items, turn s a = s) ∧ items.foldl turn s = s ∨
      (size s < size (items.foldl turn s) ∧ μ (items.foldl turn s) < μ s) := by
  induction items generalizing s with
  | nil => exact Or.inl ⟨by simp, rfl⟩
  | cons a items ih =>
    have hrest : Grows turn size μ items := fun s b hb => h s b (List.mem_cons_of_mem _ hb)
    rw [List.foldl_cons]
    rcases h s a List.mem_cons_self with hsame | ⟨hsize, hμ⟩
    · rw [hsame]
      refine (ih hrest s).imp_left fun hall => ⟨?_, hall.2⟩
      exact List.forall_mem_cons.mpr ⟨hsame, hall.1⟩
    · rcases ih hrest (turn s a) with ⟨-, heq⟩ | ⟨hsize', hμ'⟩
      · rw [heq]
        exact Or.inr ⟨hsize, hμ⟩
      · exact Or.inr ⟨hsize.trans hsize', hμ'.trans hμ⟩

/-- **With fuel for every growth** no step changes the result. -/
theorem saturate_fixed (h : Grows turn size μ items) {fuel : ℕ} {s : σ} (hfuel : μ s < fuel) :
    ∀ a ∈ items, turn (saturate turn size items fuel s) a = saturate turn size items fuel s := by
  induction fuel generalizing s with
  | zero => exact absurd hfuel (Nat.not_lt_zero _)
  | succ fuel ih =>
    rw [saturate]
    rcases h.foldl s with ⟨hall, heq⟩ | ⟨hsize, hμ⟩
    · rw [heq, if_pos rfl]
      exact hall
    · rw [if_neg hsize.ne']
      exact ih (by omega)

/-! ## 2. Steps that mark their item -/

section Marks

variable {ι : Type*} [DecidableEq ι] {marked : σ → List ι} {key : α → ι}

/-- A step does nothing, or it marks what was not marked, the key of its item included. -/
def Marks (turn : σ → α → σ) (marked : σ → List ι) (key : α → ι) : Prop :=
  ∀ s a, turn s a = s ∨
    (key a ∉ marked s ∧ ∃ more, marked (turn s a) = marked s ++ more ∧ key a ∈ more)

/-- What is not marked yet becomes less. -/
theorem countP_unmarked_lt {l more : List ι} {a : α} (ha : a ∈ items) (hnew : key a ∉ l)
    (hmore : key a ∈ more) :
    items.countP (fun b => decide (key b ∉ l ++ more)) <
      items.countP (fun b => decide (key b ∉ l)) := by
  have hle : ∀ items : List α, items.countP (fun b => decide (key b ∉ l ++ more)) ≤
      items.countP (fun b => decide (key b ∉ l)) := fun items =>
    List.countP_mono_left fun b _ => by simp; tauto
  obtain ⟨front, back, rfl⟩ := List.append_of_mem ha
  have hfront := hle front
  have hback := hle back
  rw [List.countP_append, List.countP_append,
    List.countP_cons_of_neg (by simp [hmore]), List.countP_cons_of_pos (by simpa using hnew)]
  omega

theorem Marks.grows (h : Marks turn marked key) :
    Grows turn (fun s => (marked s).length)
      (fun s => items.countP fun b => decide (key b ∉ marked s)) items := by
  intro s a ha
  refine (h s a).imp_right fun ⟨hnew, more, heq, hmore⟩ => ⟨?_, ?_⟩
  · have := List.length_pos_of_mem hmore
    simp only [heq, List.length_append]
    omega
  · simp only [heq]
    exact countP_unmarked_lt ha hnew hmore

/-- **One growth an item is enough** where every step marks the key of its item. -/
theorem saturate_marks_fixed (h : Marks turn marked key) (s : σ) :
    ∀ a ∈ items, turn (saturate turn (fun s => (marked s).length) items (items.length + 1) s) a =
      saturate turn (fun s => (marked s).length) items (items.length + 1) s :=
  saturate_fixed h.grows (Nat.lt_succ_of_le List.countP_le_length)

end Marks

end PosseClient.Saturation
