/-
# The size of JSON texts

How long a text gets where it is written into another: as a member of an object, and as a string, where
a quote or a line feed takes two units.

* `length_escape_between`: the escape of a text without surrogates counts by its units.
* `weight_stringifyMembers`: the text of an object counts by its members.
-/
import PosseClient.Lib.Json

namespace PosseClient.Json

/-! ## 1. Weights -/

/-- The units of a text, counted by `w`. -/
def weight (w : ℕ → ℕ) (s : Utf16) : ℕ := (s.map w).sum

section Weight

variable {w : ℕ → ℕ}

@[simp] theorem weight_nil : weight w [] = 0 := rfl

@[simp] theorem weight_cons (u : ℕ) (s : Utf16) : weight w (u :: s) = w u + weight w s := by
  simp [weight]

@[simp] theorem weight_append (s t : Utf16) : weight w (s ++ t) = weight w s + weight w t := by
  simp [weight]

theorem weight_one (s : Utf16) : weight (fun _ => 1) s = s.length := by
  induction s with
  | nil => rfl
  | cons u s ih =>
    rw [weight_cons, ih, List.length_cons]
    omega

theorem length_le_weight (hw : ∀ u, 1 ≤ w u) (s : Utf16) : s.length ≤ weight w s := by
  induction s with
  | nil => simp
  | cons u s ih =>
    have := hw u
    simp
    omega

/-- Units of weight one. -/
theorem weight_eq_length {s : Utf16} (h : ∀ u ∈ s, w u = 1) : weight w s = s.length := by
  induction s with
  | nil => rfl
  | cons u s ih =>
    rw [weight_cons, h u List.mem_cons_self, ih fun v hv => h v (List.mem_cons_of_mem u hv),
      List.length_cons]
    omega

/-- What a member adds to the text of its object, with the comma before the next. -/
def memberWeight (w : ℕ → ℕ) (m : Utf16 × Value) : ℕ :=
  weight w (quote m.1) + w 58 + weight w (stringify m.2) + w 44

/-- **The text of an object** counts by its members. -/
theorem weight_stringifyMembers {members : List (Utf16 × Value)} (h : members ≠ []) :
    weight w (stringifyMembers members) + w 44 = (members.map (memberWeight w)).sum := by
  induction members with
  | nil => exact absurd rfl h
  | cons m rest ih =>
    obtain ⟨k, v⟩ := m
    cases rest with
    | nil =>
      simp only [stringifyMembers, weight_append, weight_cons, List.map_cons, List.map_nil,
        List.sum_cons, List.sum_nil, memberWeight]
      omega
    | cons m' rest =>
      rw [stringifyMembers_cons, List.map_cons, List.sum_cons, ← ih (List.cons_ne_nil _ _)]
      simp only [weight_append, weight_cons, memberWeight]
      omega

theorem weight_object {members : List (Utf16 × Value)} (h : members ≠ []) :
    weight w (stringify (.object members)) + w 44 =
      w 123 + (members.map (memberWeight w)).sum + w 125 := by
  rw [← weight_stringifyMembers h, stringify]
  simp only [List.cons_append, weight_cons, weight_append, weight_nil]
  omega

end Weight

/-! ## 2. A text inside a string -/

/-- No unit is half of a surrogate pair. -/
def NoSurrogates (s : Utf16) : Prop := ∀ u ∈ s, isLead u = false ∧ isTrail u = false

section Escape

variable {u : ℕ} {s before after : Utf16}

theorem NoSurrogates.append {t : Utf16} (hs : NoSurrogates s) (ht : NoSurrogates t) :
    NoSurrogates (s ++ t) := by
  intro u hu
  rcases List.mem_append.mp hu with hu | hu
  · exact hs u hu
  · exact ht u hu

theorem noSurrogates_of_lt (h : ∀ u ∈ s, u < 55296) : NoSurrogates s := by
  intro u hu
  have := h u hu
  simp only [isLead, isTrail, Bool.and_eq_false_iff, decide_eq_false_iff_not]
  omega

theorem escape_cons (hlead : isLead u = false) (htrail : isTrail u = false) :
    escape (u :: s) = escapeUnit u ++ escape s := by
  rw [escape.eq_def]
  simp [hlead, htrail]

/-- A unit that ends no pair is escaped by itself, whatever stands before it. -/
theorem escape_append_cons (htrail : isTrail u = false) :
    escape (before ++ u :: after) = escape before ++ escape (u :: after) := by
  fun_induction escape before with
  | case1 => rfl
  | case2 x hx y rest hy ih =>
    rw [List.cons_append, List.cons_append, escape, if_pos hx]
    simp [hy, ih]
  | case3 x hx y rest hy ih =>
    rw [List.cons_append, List.cons_append, escape, if_pos hx]
    simp only [hy, Bool.false_eq_true, if_false]
    rw [← List.cons_append, ih, List.append_assoc]
  | case4 x hx =>
    rw [List.cons_append, List.nil_append, escape, if_pos hx]
    simp [htrail]
  | case5 x rest hx hy ih =>
    rw [List.cons_append, escape.eq_def]
    simp [hx, hy, ih]
  | case6 x rest hx hy ih =>
    rw [List.cons_append, escape.eq_def]
    simp [hx, hy, ih]

theorem length_escape_append (hs : NoSurrogates s) :
    (escape (s ++ after)).length =
      weight (fun u => (escapeUnit u).length) s + (escape after).length := by
  induction s with
  | nil => simp
  | cons u s ih =>
    obtain ⟨hlead, htrail⟩ := hs u List.mem_cons_self
    rw [List.cons_append, escape_cons hlead htrail, List.length_append,
      ih fun v hv => hs v (List.mem_cons_of_mem u hv), weight_cons]
    omega

/-- **A text between two others** takes what its units take. -/
theorem length_escape_between (hs : NoSurrogates s) (hne : s ≠ []) :
    (escape (before ++ (s ++ after))).length = (escape before).length +
      (weight (fun u => (escapeUnit u).length) s + (escape after).length) := by
  cases s with
  | nil => exact absurd rfl hne
  | cons u s =>
    rw [List.cons_append, escape_append_cons (hs u List.mem_cons_self).2, List.length_append,
      ← List.cons_append, length_escape_append hs]

theorem one_le_length_escapeUnit (u : ℕ) : 1 ≤ (escapeUnit u).length := by
  unfold escapeUnit unicodeEscape
  split_ifs <;> simp

theorem escapeUnit_of_plain (h : 48 ≤ u ∧ u ≤ 57 ∨ 97 ≤ u ∧ u ≤ 122) : escapeUnit u = [u] := by
  unfold escapeUnit
  split_ifs <;> first | rfl | omega

/-- A member of an object stands between two texts that do not depend on its value. -/
theorem stringifyMembers_between (before after : List (Utf16 × Value)) (k : Utf16) :
    ∃ left right, ∀ v, stringifyMembers (before ++ (k, v) :: after) =
      left ++ (stringify v ++ right) := by
  induction before with
  | nil =>
    cases after with
    | nil => exact ⟨quote k ++ [58], [], fun v => by simp [stringifyMembers]⟩
    | cons m after =>
      refine ⟨quote k ++ [58], 44 :: stringifyMembers (m :: after), fun v => ?_⟩
      rw [List.nil_append, stringifyMembers_cons]
      simp
  | cons m before ih =>
    obtain ⟨left, right, hv⟩ := ih
    obtain ⟨k', v'⟩ := m
    refine ⟨quote k' ++ 58 :: stringify v' ++ 44 :: left, right, fun v => ?_⟩
    have hcons : ∃ m' rest, before ++ (k, v) :: after = m' :: rest := by
      cases before with
      | nil => exact ⟨_, _, rfl⟩
      | cons m' rest => exact ⟨_, _, rfl⟩
    obtain ⟨m', rest, hrest⟩ := hcons
    have hstep := hv v
    rw [hrest] at hstep
    rw [List.cons_append, hrest, stringifyMembers_cons, hstep]
    simp

/-- The text of an object has no surrogates if those of its members have none. -/
theorem noSurrogates_object {members : List (Utf16 × Value)}
    (h : ∀ m ∈ members, NoSurrogates (quote m.1) ∧ NoSurrogates (stringify m.2)) :
    NoSurrogates (stringify (.object members)) := by
  have hunit : ∀ u, u < 55296 → NoSurrogates [u] := fun u hu =>
    noSurrogates_of_lt fun v hv => by rwa [List.mem_singleton.mp hv]
  have hmembers : NoSurrogates (stringifyMembers members) := by
    induction members with
    | nil => exact fun u hu => by cases hu
    | cons m rest ih =>
      obtain ⟨k, v⟩ := m
      obtain ⟨hk, hv⟩ := h (k, v) List.mem_cons_self
      have hmember : NoSurrogates (quote k ++ ([58] ++ stringify v)) :=
        hk.append ((hunit 58 (by omega)).append hv)
      cases rest with
      | nil => exact hmember
      | cons m' rest =>
        rw [stringifyMembers_cons]
        have hrest := ih fun m hm => h m (List.mem_cons_of_mem _ hm)
        simpa using hmember.append ((hunit 44 (by omega)).append hrest)
  exact (hunit 123 (by omega)).append (hmembers.append (hunit 125 (by omega)))

theorem noSurrogates_ofNat (n : ℕ) : NoSurrogates (stringify (ofNat n)) :=
  noSurrogates_of_lt fun u hu => by
    have := natText_units n u hu
    omega

end Escape

end PosseClient.Json
