/-
# Code points of UTF-16 texts

A text in UTF-16 code units cut into its code points: a high surrogate with a low one after it is one
code point of two units, every other unit is a code point of its own, unpaired surrogates included.

* `codePoints_flatten`: the code points are the text.
* `codePoints_append`: a text cut at a boundary has the code points of its two parts.
* `utf8Length_le`: how many bytes a text takes in UTF-8.
-/
import Mathlib

namespace PosseClient.CodePoints

/-! ## 1. Cutting -/

def isHighSurrogate (u : ℕ) : Bool := 0xD800 ≤ u && u ≤ 0xDBFF

def isLowSurrogate (u : ℕ) : Bool := 0xDC00 ≤ u && u ≤ 0xDFFF

/-- The code points of a text, each as its units. -/
def codePoints : List ℕ → List (List ℕ)
  | [] => []
  | [u] => [[u]]
  | u :: v :: rest =>
    if isHighSurrogate u && isLowSurrogate v then [u, v] :: codePoints rest
    else [u] :: codePoints (v :: rest)

/-- No code point goes over from the first text to the second. -/
def Boundary (a b : List ℕ) : Prop :=
  ∀ u ∈ a.getLast?, ∀ v ∈ b.head?, ¬ (isHighSurrogate u = true ∧ isLowSurrogate v = true)

instance (a b : List ℕ) : Decidable (Boundary a b) :=
  inferInstanceAs (Decidable (∀ u ∈ a.getLast?, ∀ v ∈ b.head?, ¬ _))

theorem codePoints_flatten (text : List ℕ) : (codePoints text).flatten = text := by
  induction text using codePoints.induct with
  | case1 => rfl
  | case2 u => rfl
  | case3 u v rest hpair ih => simp [codePoints, hpair, ih]
  | case4 u v rest hpair ih => simp [codePoints, hpair, ih]

/-- **The code points of two texts** that meet at a boundary. -/
theorem codePoints_append {a b : List ℕ} (h : Boundary a b) :
    codePoints (a ++ b) = codePoints a ++ codePoints b := by
  induction a using codePoints.induct with
  | case1 => rfl
  | case2 u =>
    cases b with
    | nil => rfl
    | cons v rest =>
      have hpair : ¬ (isHighSurrogate u && isLowSurrogate v) = true := by
        rw [Bool.and_eq_true]
        exact h u rfl v rfl
      simp [codePoints, hpair]
  | case3 u v rest hpair ih =>
    have hrest : Boundary rest b := by
      cases rest with
      | nil => exact fun u hu => by cases hu
      | cons w rest => exact fun x hx => h x (by simpa using hx)
    simp [codePoints, hpair, ih hrest]
  | case4 u v rest hpair ih =>
    have hrest : Boundary (v :: rest) b := fun x hx => h x (by simpa using hx)
    have hcons := ih hrest
    rw [List.cons_append] at hcons
    simp [codePoints, hpair, hcons]

/-! ## 2. Widths -/

/-- The bytes of a code point in UTF-8; an unpaired surrogate is written as the replacement
character. -/
def utf8Width : List ℕ → ℕ
  | [u] => if u < 0x80 then 1 else if u < 0x800 then 2 else 3
  | _ => 4

theorem utf8Width_pos (point : List ℕ) : 0 < utf8Width point := by
  unfold utf8Width
  split
  · split_ifs <;> omega
  · omega

/-- The bytes of a text in UTF-8. -/
def utf8Length (text : List ℕ) : ℕ := ((codePoints text).map utf8Width).sum

theorem utf8Length_append {a b : List ℕ} (h : Boundary a b) :
    utf8Length (a ++ b) = utf8Length a + utf8Length b := by
  simp [utf8Length, codePoints_append h]

/-- A unit takes at most three bytes. -/
theorem utf8Length_le (text : List ℕ) : utf8Length text ≤ 3 * text.length := by
  have hsingle : ∀ u : ℕ, utf8Width [u] ≤ 3 := by
    intro u
    simp only [utf8Width]
    split_ifs <;> omega
  induction text using codePoints.induct with
  | case1 => simp [utf8Length, codePoints]
  | case2 u =>
    have hu := hsingle u
    simpa [utf8Length, codePoints] using hu
  | case3 u v rest hpair ih =>
    unfold utf8Length at ih ⊢
    simp only [codePoints, hpair, if_true, List.map_cons, List.sum_cons, List.length_cons]
    have hpairwidth : utf8Width [u, v] = 4 := rfl
    omega
  | case4 u v rest hpair ih =>
    have hu := hsingle u
    unfold utf8Length at ih ⊢
    simp only [codePoints, hpair, Bool.false_eq_true, if_false, List.map_cons, List.sum_cons,
      List.length_cons] at ih ⊢
    omega

theorem length_codePoints_append {a b : List ℕ} (h : Boundary a b) :
    (codePoints (a ++ b)).length = (codePoints a).length + (codePoints b).length := by
  simp [codePoints_append h]

theorem length_codePoints_le (text : List ℕ) : (codePoints text).length ≤ text.length := by
  induction text using codePoints.induct with
  | case1 => simp [codePoints]
  | case2 u => simp [codePoints]
  | case3 u v rest hpair ih =>
    simp only [codePoints, hpair, if_true, List.length_cons]
    omega
  | case4 u v rest hpair ih =>
    simp only [codePoints, hpair, Bool.false_eq_true, if_false, List.length_cons] at ih ⊢
    omega

end PosseClient.CodePoints
