/-
# Tables as lists of rows

A table of the queue database is a list of rows.  The four statements of SQL the code uses
are the four functions here: `select` (a `WHERE` clause), `updateWhere` (`UPDATE .. SET ..
WHERE`), append (`INSERT`) and `deleteWhere`.  `lookup key k` is a read by primary key, `first` a
read with `ORDER BY .. LIMIT 1`, and `changes` is the row count a statement reports.

The lemmas say what an update does to membership, to a read by key and to the list of keys;
proofs about the store cite them instead of unfolding a map.
-/
import Mathlib

namespace PosseClient.Table

variable {ρ κ : Type*}

/-! ## 1. Statements -/

/-- `SELECT * .. WHERE p`. -/
abbrev select (p : ρ → Bool) (t : List ρ) : List ρ := t.filter p

/-- `UPDATE .. SET f WHERE p`. -/
def updateWhere (p : ρ → Bool) (f : ρ → ρ) (t : List ρ) : List ρ :=
  t.map (fun r => if p r then f r else r)

/-- `DELETE .. WHERE p`. -/
def deleteWhere (p : ρ → Bool) (t : List ρ) : List ρ := t.filter (fun r => !p r)

/-- The number of rows a statement with this `WHERE` clause touches. -/
def changes (p : ρ → Bool) (t : List ρ) : ℕ := t.countP p

/-- `SELECT * .. WHERE key = k`, for a key that names at most one row. -/
def lookup [DecidableEq κ] (key : ρ → κ) (k : κ) (t : List ρ) : Option ρ :=
  t.find? (fun r => key r = k)

/-- `ORDER BY .. LIMIT 1`, where `before` says which of two rows the order puts first. -/
def first (before : ρ → ρ → Bool) : List ρ → Option ρ
  | [] => none
  | r :: t =>
    match first before t with
    | none => some r
    | some s => if before s r then some s else some r

theorem first_mem {before : ρ → ρ → Bool} {t : List ρ} {r : ρ} (h : first before t = some r) :
    r ∈ t := by
  induction t with
  | nil => simp [first] at h
  | cons a t ih =>
    rw [first] at h
    cases hs : first before t with
    | none =>
      simp only [hs, Option.some.injEq] at h
      simp [h]
    | some s =>
      simp only [hs] at h
      split at h
      · exact List.mem_cons_of_mem a (ih (hs.trans h))
      · simp [Option.some.inj h]

theorem first_eq_none {before : ρ → ρ → Bool} {t : List ρ} (h : first before t = none) :
    t = [] := by
  cases t with
  | nil => rfl
  | cons a t =>
    rw [first] at h
    split at h
    · cases h
    · split at h <;> cases h

/-! ## 2. What an update does to the rows -/

section Update

variable {p : ρ → Bool} {f : ρ → ρ} {t : List ρ} {r : ρ}

theorem mem_updateWhere :
    r ∈ updateWhere p f t ↔ ∃ r₀ ∈ t, (if p r₀ then f r₀ else r₀) = r := by
  simp [updateWhere]

/-- A row after the update is either an untouched row or the image of a touched one. -/
theorem mem_updateWhere_cases (h : r ∈ updateWhere p f t) :
    (r ∈ t ∧ p r = false) ∨ ∃ r₀ ∈ t, p r₀ = true ∧ r = f r₀ := by
  obtain ⟨r₀, hr₀, rfl⟩ := mem_updateWhere.mp h
  cases hp : p r₀ with
  | false => simp [hp, hr₀]
  | true => exact Or.inr ⟨r₀, hr₀, hp, by simp⟩

theorem mem_updateWhere_of_not (h : r ∈ t) (hp : p r = false) : r ∈ updateWhere p f t :=
  mem_updateWhere.mpr ⟨r, h, by simp [hp]⟩

theorem mem_updateWhere_of (h : r ∈ t) (hp : p r = true) : f r ∈ updateWhere p f t :=
  mem_updateWhere.mpr ⟨r, h, by simp [hp]⟩

@[simp] theorem updateWhere_nil : updateWhere p f ([] : List ρ) = [] := rfl

@[simp] theorem updateWhere_cons (r : ρ) :
    updateWhere p f (r :: t) = (if p r then f r else r) :: updateWhere p f t := rfl

@[simp] theorem length_updateWhere : (updateWhere p f t).length = t.length := by
  simp [updateWhere]

/-- A statement that touches no row changes nothing. -/
theorem updateWhere_eq_self (h : ∀ r ∈ t, p r = false) : updateWhere p f t = t := by
  induction t with
  | nil => rfl
  | cons r t ih =>
    simp only [updateWhere_cons, h r List.mem_cons_self, Bool.false_eq_true, if_false]
    rw [ih fun s hs => h s (List.mem_cons_of_mem r hs)]

/-- An update of rows that a query leaves out, before and after, does not change its answer. -/
theorem select_updateWhere {q : ρ → Bool} (hq : ∀ r, p r = true → q r = false ∧ q (f r) = false) :
    select q (updateWhere p f t) = select q t := by
  induction t with
  | nil => rfl
  | cons r t ih =>
    have hrest : (updateWhere p f t).filter q = t.filter q := ih
    rw [updateWhere_cons, select, select, List.filter_cons, List.filter_cons, hrest]
    cases hp : p r with
    | false => rfl
    | true => simp [(hq r hp).1, (hq r hp).2]

theorem changes_eq_zero_iff : changes p t = 0 ↔ ∀ r ∈ t, p r = false := by
  simp [changes, List.countP_eq_zero]

theorem updateWhere_of_changes_eq_zero (h : changes p t = 0) : updateWhere p f t = t :=
  updateWhere_eq_self (changes_eq_zero_iff.mp h)

theorem changes_pos_iff : 0 < changes p t ↔ ∃ r ∈ t, p r = true := by
  simp [changes, List.countP_pos_iff]

end Update

/-! ## 3. Keys -/

section Keys

variable [DecidableEq κ] {key : ρ → κ} {p : ρ → Bool} {f : ρ → ρ} {t : List ρ} {k : κ} {r : ρ}

theorem lookup_mem (h : lookup key k t = some r) : r ∈ t := List.mem_of_find?_eq_some h

theorem lookup_key (h : lookup key k t = some r) : key r = k := by
  simpa using List.find?_some h

theorem lookup_eq_none_iff : lookup key k t = none ↔ ∀ r ∈ t, key r ≠ k := by
  simp [lookup]

/-- With distinct keys, a row of the table is what a read by its key returns. -/
theorem lookup_of_mem (hnd : (t.map key).Nodup) (h : r ∈ t) : lookup key (key r) t = some r := by
  induction t with
  | nil => simp at h
  | cons a t ih =>
    rw [List.map_cons, List.nodup_cons] at hnd
    by_cases hk : key a = key r
    · rcases List.mem_cons.mp h with rfl | hr
      · simp [lookup]
      · exact absurd (List.mem_map.mpr ⟨r, hr, hk.symm⟩) hnd.1
    · rcases List.mem_cons.mp h with rfl | hr
      · exact absurd rfl hk
      · simpa [lookup, hk] using ih hnd.2 hr

omit [DecidableEq κ] in
/-- Two rows with one key are one row. -/
theorem eq_of_key_eq (hnd : (t.map key).Nodup) {r s : ρ} (hr : r ∈ t) (hs : s ∈ t)
    (h : key r = key s) : r = s :=
  List.inj_on_of_nodup_map hnd hr hs h

omit [DecidableEq κ] in
/-- A clause that only one row can meet selects at most one. -/
theorem length_select_le_one (hnd : (t.map key).Nodup)
    (h : ∀ r ∈ t, ∀ s ∈ t, p r = true → p s = true → r = s) : (select p t).length ≤ 1 := by
  have hselect : (select p t).Nodup := (List.Nodup.of_map key hnd).filter p
  match hs : select p t with
  | [] => simp
  | [r] => simp
  | r :: s :: rest =>
    have hmem : ∀ x ∈ select p t, x ∈ t ∧ p x = true := fun x hx => List.mem_filter.mp hx
    rw [hs] at hselect hmem
    have hr := hmem r (by simp)
    have hs' := hmem s (by simp)
    have heq : r = s := h r hr.1 s hs'.1 hr.2 hs'.2
    simp [heq] at hselect

omit [DecidableEq κ] in
/-- An update that keeps keys keeps the list of keys. -/
theorem map_key_updateWhere (hf : ∀ r, p r = true → key (f r) = key r) :
    (updateWhere p f t).map key = t.map key := by
  induction t with
  | nil => rfl
  | cons r t ih =>
    rw [updateWhere_cons, List.map_cons, List.map_cons, ih]
    cases hp : p r with
    | false => simp
    | true => simp [hf r hp]

omit [DecidableEq κ] in
/-- An update that keeps keys and the test of a filter keeps the keys the filter selects. -/
theorem map_filter_updateWhere {q : ρ → Bool} (hf : ∀ r, p r = true → key (f r) = key r)
    (hq : ∀ r, p r = true → q (f r) = q r) :
    ((updateWhere p f t).filter q).map key = (t.filter q).map key := by
  induction t with
  | nil => rfl
  | cons r t ih =>
    rw [updateWhere_cons, List.filter_cons, List.filter_cons]
    cases hp : p r with
    | false => cases hqr : q r <;> simp [hqr, ih]
    | true => cases hqr : q r <;> simp [hq r hp, hqr, hf r hp, ih]

/-- A read by key after an update that keeps keys. -/
theorem lookup_updateWhere (hf : ∀ r, p r = true → key (f r) = key r) :
    lookup key k (updateWhere p f t) =
      (lookup key k t).map (fun r => if p r then f r else r) := by
  induction t with
  | nil => rfl
  | cons r t ih =>
    have hkey : key (if p r then f r else r) = key r := by
      cases hp : p r with
      | false => simp
      | true => simp [hf r hp]
    rw [updateWhere_cons]
    unfold lookup at ih ⊢
    rw [List.find?_cons, List.find?_cons, hkey]
    cases hd : decide (key r = k) with
    | false => simpa using ih
    | true => simp

end Keys

/-! ## 4. Tables related row by row -/

section Related

variable [DecidableEq κ] {key : ρ → κ} {p : ρ → Bool} {f : ρ → ρ} {t t' : List ρ} {k : κ} {r : ρ}
  {R : ρ → ρ → Prop}

omit [DecidableEq κ] in
/-- An update relates each row to its image. -/
theorem forall₂_updateWhere (hrefl : ∀ r, R r r) (hf : ∀ r ∈ t, p r = true → R r (f r)) :
    List.Forall₂ R t (updateWhere p f t) := by
  induction t with
  | nil => exact List.Forall₂.nil
  | cons r t ih =>
    rw [updateWhere_cons]
    refine List.Forall₂.cons ?_ (ih fun s hs => hf s (List.mem_cons_of_mem r hs))
    cases hp : p r with
    | false => simpa using hrefl r
    | true => simpa using hf r List.mem_cons_self hp

/-- Rows related by a relation that keeps keys are read by the same key. -/
theorem lookup_forall₂ (hkey : ∀ r s, R r s → key s = key r) (h : List.Forall₂ R t t')
    (hr : lookup key k t = some r) : ∃ r', lookup key k t' = some r' ∧ R r r' := by
  induction h with
  | nil => simp [lookup] at hr
  | @cons a b t t' hab _ ih =>
    unfold lookup at hr ih ⊢
    rw [List.find?_cons] at hr ⊢
    rw [hkey a b hab]
    cases hd : decide (key a = k) with
    | false =>
      rw [hd] at hr
      exact ih hr
    | true =>
      rw [hd] at hr
      obtain rfl := Option.some.inj hr
      exact ⟨b, rfl, hab⟩

omit [DecidableEq κ] in
/-- Each row of the second table has its row in the first. -/
theorem exists_of_mem_forall₂ (h : List.Forall₂ R t t') {r' : ρ} (hr' : r' ∈ t') :
    ∃ r ∈ t, R r r' := by
  induction h with
  | nil => simp at hr'
  | @cons a b t t' hab _ ih =>
    rcases List.mem_cons.mp hr' with rfl | hmem
    · exact ⟨a, List.mem_cons_self, hab⟩
    · obtain ⟨r, hr, hR⟩ := ih hmem
      exact ⟨r, List.mem_cons_of_mem a hr, hR⟩

omit [DecidableEq κ] in
/-- Each row of the first table has its row in the second. -/
theorem exists_of_mem_forall₂' (h : List.Forall₂ R t t') {r : ρ} (hr : r ∈ t) :
    ∃ r' ∈ t', R r r' := by
  induction h with
  | nil => simp at hr
  | @cons a b t t' hab _ ih =>
    rcases List.mem_cons.mp hr with rfl | hmem
    · exact ⟨b, List.mem_cons_self, hab⟩
    · obtain ⟨r', hr', hR⟩ := ih hmem
      exact ⟨r', List.mem_cons_of_mem b hr', hR⟩

theorem lookup_eq_none_forall₂ (hkey : ∀ r s, R r s → key s = key r) (h : List.Forall₂ R t t')
    (hr : lookup key k t = none) : lookup key k t' = none := by
  rw [lookup_eq_none_iff] at hr ⊢
  induction h with
  | nil => simp
  | @cons a b t t' hab _ ih =>
    intro s hs
    rcases List.mem_cons.mp hs with rfl | hs
    · rw [hkey a _ hab]
      exact hr a List.mem_cons_self
    · exact ih (fun r hr' => hr r (List.mem_cons_of_mem a hr')) s hs

/-- What a read of the second table finds, a read of the first finds related. -/
theorem lookup_forall₂' (hkey : ∀ r s, R r s → key s = key r) (h : List.Forall₂ R t t') {r' : ρ}
    (hr' : lookup key k t' = some r') : ∃ r, lookup key k t = some r ∧ R r r' := by
  cases hr : lookup key k t with
  | none => simp [lookup_eq_none_forall₂ hkey h hr] at hr'
  | some r =>
    obtain ⟨s, hs, hR⟩ := lookup_forall₂ hkey h hr
    exact ⟨r, rfl, Option.some.inj (hs.symm.trans hr') ▸ hR⟩

omit [DecidableEq κ] in
theorem map_key_forall₂ (hkey : ∀ r s, R r s → key s = key r) (h : List.Forall₂ R t t') :
    t'.map key = t.map key := by
  induction h with
  | nil => rfl
  | @cons a b t t' hab _ ih => rw [List.map_cons, List.map_cons, hkey a b hab, ih]

omit [DecidableEq κ] in
theorem forall₂_trans [IsTrans ρ R] {t'' : List ρ} (h : List.Forall₂ R t t')
    (h' : List.Forall₂ R t' t'') : List.Forall₂ R t t'' := by
  induction h generalizing t'' with
  | nil =>
    cases h' with
    | nil => exact List.Forall₂.nil
  | cons hab _ ih =>
    cases h' with
    | cons hbc h'' => exact List.Forall₂.cons (IsTrans.trans _ _ _ hab hbc) (ih h'')

end Related

end PosseClient.Table
