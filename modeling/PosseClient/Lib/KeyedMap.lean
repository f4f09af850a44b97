/-
# Maps whose values know their key

An insertion-ordered map as the list of its values; `key` reads a value's key off it.  Setting a
value replaces the one of its key in place, or comes last.

* `lookup_put`, `lookup_remove`: what a read sees after a write.
-/
import PosseClient.Lib.Table

namespace PosseClient.KeyedMap

open Table

variable {ρ κ : Type*} [DecidableEq κ] (key : ρ → κ)

/-- `map.set(key, value)`. -/
def put (r : ρ) (t : List ρ) : List ρ :=
  if t.any (fun s => decide (key s = key r)) then
    updateWhere (fun s => decide (key s = key r)) (fun _ => r) t
  else t ++ [r]

/-- `map.delete(key)`. -/
def remove (k : κ) (t : List ρ) : List ρ := deleteWhere (fun s => decide (key s = k)) t

variable {key} {k : κ} {r : ρ} {t : List ρ}

theorem lookup_cons (s : ρ) :
    lookup key k (s :: t) = if key s = k then some s else lookup key k t := by
  unfold lookup
  rw [List.find?_cons]
  by_cases h : key s = k
  · simp [h]
  · simp [h]

/-- The value of a list with one more at the end. -/
theorem lookup_concat (s : ρ) : lookup key k (t ++ [s]) =
    (lookup key k t).or (if key s = k then some s else none) := by
  induction t with
  | nil => simp [lookup]
  | cons s' t ih =>
    rw [List.cons_append, lookup_cons, lookup_cons, ih]
    split_ifs <;> simp

/-- **A read after a write.** -/
theorem lookup_put : lookup key k (put key r t) = if key r = k then some r else lookup key k t := by
  unfold put
  split_ifs with hany hk hk
  · -- the value of the key is replaced
    subst hk
    rw [lookup_updateWhere fun s hs => (of_decide_eq_true hs).symm]
    obtain ⟨s, hs, hkey⟩ := List.any_eq_true.mp hany
    cases hl : lookup key (key r) t with
    | none => exact absurd (of_decide_eq_true hkey) (lookup_eq_none_iff.mp hl s hs)
    | some s' => simp [lookup_key hl]
  · -- the value of another key is replaced
    rw [lookup_updateWhere fun s hs => (of_decide_eq_true hs).symm]
    cases hl : lookup key k t with
    | none => rfl
    | some s' =>
      have hne : key s' ≠ key r := fun h => hk ((lookup_key hl) ▸ h.symm)
      simp [hne]
  · subst hk
    have hnone : lookup key (key r) t = none := by
      refine lookup_eq_none_iff.mpr fun s hs heq => hany ?_
      simp only [List.any_eq_true, decide_eq_true_eq]
      exact ⟨s, hs, heq⟩
    rw [lookup_concat, hnone]
    simp
  · rw [lookup_concat]
    simp [hk]

/-- **A read after a removal.** -/
theorem lookup_remove {k' : κ} :
    lookup key k (remove key k' t) = if k = k' then none else lookup key k t := by
  induction t with
  | nil => simp [remove, deleteWhere, lookup]
  | cons s t ih =>
    have hrec : remove key k' (s :: t) = if key s = k' then remove key k' t
        else s :: remove key k' t := by
      by_cases hs : key s = k'
      · simp [remove, deleteWhere, hs]
      · simp [remove, deleteWhere, hs]
    rw [hrec]
    by_cases hs : key s = k'
    · rw [if_pos hs, ih, lookup_cons]
      by_cases hk : k = k'
      · simp [hk]
      · have hsk : key s ≠ k := fun h => hk (h ▸ hs)
        simp [hk, hsk]
    · rw [if_neg hs, lookup_cons, lookup_cons, ih]
      by_cases hk : k = k'
      · have hsk : key s ≠ k := fun h => hs (h.trans hk)
        simp [hk, hs]
      · simp [hk]

/-! A map has one value for each key. -/

theorem nodup_put (h : (t.map key).Nodup) : ((put key r t).map key).Nodup := by
  unfold put
  split_ifs with hany
  · rw [map_key_updateWhere fun s hs => (of_decide_eq_true hs).symm]
    exact h
  · rw [List.map_append, List.nodup_append]
    refine ⟨h, by simp, ?_⟩
    intro a ha b hb heq
    obtain ⟨s, hs, rfl⟩ := List.mem_map.mp ha
    refine hany ?_
    rw [List.any_eq_true]
    refine ⟨s, hs, ?_⟩
    simpa [heq] using hb

theorem nodup_remove (h : (t.map key).Nodup) : ((remove key k t).map key).Nodup :=
  h.sublist (List.Sublist.map key List.filter_sublist)

theorem mem_put {s : ρ} (h : s ∈ put key r t) : s = r ∨ s ∈ t := by
  unfold put at h
  split_ifs at h
  · rcases mem_updateWhere_cases h with hs | ⟨_, -, -, hs⟩
    · exact Or.inr hs.1
    · exact Or.inl hs
  · rcases List.mem_append.mp h with hs | hs
    · exact Or.inr hs
    · exact Or.inl (List.mem_singleton.mp hs)

theorem mem_put_self : r ∈ put key r t := by
  unfold put
  split_ifs with hany
  · obtain ⟨s, hs, hkey⟩ := List.any_eq_true.mp hany
    exact mem_updateWhere_of (f := fun _ => r) hs hkey
  · simp

/-- A value of another key stays. -/
theorem mem_put_of_mem {s : ρ} (h : s ∈ t) (hkey : key s ≠ key r) : s ∈ put key r t := by
  unfold put
  split_ifs
  · exact mem_updateWhere_of_not h (decide_eq_false hkey)
  · exact List.mem_append_left _ h

/-- A write of a value that is there already. -/
theorem put_eq_self (h : (t.map key).Nodup) (hr : r ∈ t) : put key r t = t := by
  have hany : t.any (fun s => decide (key s = key r)) = true :=
    List.any_eq_true.mpr ⟨r, hr, decide_eq_true rfl⟩
  unfold put
  rw [if_pos hany, updateWhere]
  refine (List.map_congr_left fun s hs => ?_).trans (List.map_id t)
  by_cases hkey : key s = key r
  · rw [if_pos (decide_eq_true hkey), eq_of_key_eq h hs hr hkey, id]
  · rw [if_neg (by simpa using hkey), id]

/-- The keys after a write. -/
theorem mem_map_put {k' : κ} : k' ∈ (put key r t).map key ↔ k' = key r ∨ k' ∈ t.map key := by
  rw [List.mem_map, List.mem_map]
  constructor
  · rintro ⟨s, hs, rfl⟩
    rcases mem_put hs with rfl | hs
    · exact Or.inl rfl
    · exact Or.inr ⟨s, hs, rfl⟩
  · intro h
    by_cases hk : k' = key r
    · exact ⟨r, mem_put_self, hk.symm⟩
    · obtain ⟨s, hs, rfl⟩ := h.resolve_left hk
      exact ⟨s, mem_put_of_mem hs hk, rfl⟩

theorem mem_remove {s : ρ} (h : s ∈ remove key k t) : s ∈ t := List.mem_of_mem_filter h

end PosseClient.KeyedMap
