/-
# Eviction is exact

What `_enforceMaterializedBudget` does to the rows of an owner, from any state.

* `enforceLoop_spec`: the loop drops the shortest prefix of the eviction order.
* `reportPinnedPressure_spec`: the marker touches no row that may be evicted.
* `eviction_exact`: which rows lose their payload, and what is left.
-/
import PosseClient.HashRefs.Eviction

namespace PosseClient

open Json Shedding Table

/-! ## 1. The order -/

/-- The rows that may be evicted, in the order in which the loop would evict them. -/
def evictionOrder (store : HashRefStore) (preserveRef : String) (db : HashRefDb) :
    List HashRefRow :=
  inOrder (evictionKey preserveRef) (store.evictable db)

section Order

variable {store : HashRefStore} {preserveRef : String} {db : HashRefDb} {row : HashRefRow}

theorem mem_evictable :
    row ∈ store.evictable db ↔ row ∈ db.rows ∧ store.isEvictable db row = true :=
  List.mem_filter

theorem evictionKey_injOn : ∀ r ∈ store.evictable db, ∀ s ∈ store.evictable db,
    evictionKey preserveRef r = evictionKey preserveRef s → r = s := by
  intro r hr s hs hkey
  refine eq_of_key_eq db.ids (mem_evictable.mp hr).1 (mem_evictable.mp hs).1 ?_
  have hsecond := congrArg (fun k => (ofLex (ofLex k).2).2) hkey
  exact hsecond

theorem evictable_nodup : (store.evictable db).Nodup :=
  (List.Nodup.of_map _ db.ids).filter _

theorem victim_eq_head : store.victim preserveRef db = (evictionOrder store preserveRef db).head? :=
  first_eq_head evictionKey_injOn

/-- Whether rows fit does not depend on their order. -/
theorem fits_perm {rows rows' : List HashRefRow} (h : rows.Perm rows') :
    store.fits rows = store.fits rows' := by
  have hchars : charsOf rows = charsOf rows' := (h.map _).sum_eq
  rw [HashRefStore.fits, HashRefStore.fits, h.length_eq, hchars]

theorem fits_evictionOrder :
    store.fits (evictionOrder store preserveRef db) = store.fits (store.evictable db) :=
  fits_perm (inOrder_perm _ _)

/-- An eviction of the head leaves the order without it. -/
theorem evictionOrder_evict {rest : List HashRefRow}
    (h : evictionOrder store preserveRef db = row :: rest) (sha256Hex : Utf16 → Utf16)
    (times : EvictionTimes) :
    evictionOrder store preserveRef (db.evictMaterializedRow sha256Hex times row) = rest := by
  have hrow : row ∈ store.evictable db := by
    have hmem : row ∈ evictionOrder store preserveRef db := by
      rw [h]
      exact List.mem_cons_self
    exact mem_inOrder.mp hmem
  rw [evictionOrder, evictable_evict]
  refine inOrder_tail evictable_nodup evictionKey_injOn h ?_
  intro other hother
  rw [decide_eq_true_eq]
  constructor
  · rintro hid rfl
    exact hid rfl
  · intro hne hid
    exact hne (eq_of_key_eq db.ids (mem_evictable.mp hother).1 (mem_evictable.mp hrow).1 hid)

end Order

/-! ## 2. The loop -/

/-- The rows after the rows with these ids were evicted. -/
structure EvictedIds (sha256Hex : Utf16 → Utf16) (ids : List ℕ) (db db' : HashRefDb) : Prop where
  rows : List.Forall₂ (fun row row' =>
    (row.id ∈ ids ∧ ∃ times, row' = row.evicted sha256Hex times) ∨ row.id ∉ ids ∧ row' = row)
    db.rows db'.rows
  aliases : db'.aliases = db.aliases
  evidence : db'.evidence = db.evidence
  calls : db'.calls = db.calls

theorem EvictedIds.refl (sha256Hex : Utf16 → Utf16) (db : HashRefDb) :
    EvictedIds sha256Hex [] db db :=
  ⟨List.forall₂_same.mpr fun _ _ => Or.inr ⟨by simp, rfl⟩, rfl, rfl, rfl⟩

theorem evictedIds_evict (sha256Hex : Utf16 → Utf16) (times : EvictionTimes) (db : HashRefDb)
    (victim : HashRefRow) :
    EvictedIds sha256Hex [victim.id] db (db.evictMaterializedRow sha256Hex times victim) := by
  refine ⟨?_, rfl, rfl, rfl⟩
  show List.Forall₂ _ db.rows (updateWhere _ _ db.rows)
  rw [updateWhere, List.forall₂_map_right_iff, List.forall₂_same]
  intro row _
  by_cases hid : row.id = victim.id
  · exact Or.inl ⟨by simp [hid], times, by simp [hid]⟩
  · exact Or.inr ⟨by simp [hid], by simp [hid]⟩

theorem EvictedIds.trans {sha256Hex : Utf16 → Utf16} {ids ids' : List ℕ} {a b c : HashRefDb}
    (hab : EvictedIds sha256Hex ids a b) (hbc : EvictedIds sha256Hex ids' b c)
    (hdisjoint : ∀ id ∈ ids, id ∉ ids') : EvictedIds sha256Hex (ids ++ ids') a c := by
  refine ⟨?_, hbc.aliases.trans hab.aliases, hbc.evidence.trans hab.evidence,
    hbc.calls.trans hab.calls⟩
  refine forall₂_comp hab.rows hbc.rows ?_
  intro row _ row' row'' hrow hrow'
  simp only [List.mem_append]
  rcases hrow with ⟨hid, times, rfl⟩ | ⟨hid, rfl⟩
  · rcases hrow' with ⟨hid', _⟩ | ⟨_, rfl⟩
    · exact absurd hid' (hdisjoint row.id hid)
    · exact Or.inl ⟨Or.inl hid, times, rfl⟩
  · rcases hrow' with ⟨hid', times, rfl⟩ | ⟨hid', rfl⟩
    · exact Or.inl ⟨Or.inr hid', times, rfl⟩
    · exact Or.inr ⟨not_or.mpr ⟨hid, hid'⟩, rfl⟩

/-- **The loop evicts the front of the order** until the rest fits. -/
theorem enforceLoop_spec (store : HashRefStore) (preserveRef : String) (sha256Hex : Utf16 → Utf16)
    (clock : ℕ → EvictionTimes) (tick : ℕ) (db : HashRefDb) :
    ∃ gone, evictionOrder store preserveRef db =
        gone ++ kept store.fits (evictionOrder store preserveRef db) ∧
      EvictedIds sha256Hex (gone.map (·.id)) db
        (store.enforceLoop preserveRef sha256Hex clock tick db) ∧
      evictionOrder store preserveRef (store.enforceLoop preserveRef sha256Hex clock tick db) =
        kept store.fits (evictionOrder store preserveRef db) := by
  induction tick, db using HashRefStore.enforceLoop.induct store preserveRef sha256Hex clock with
  | case1 tick db hfits =>
    have hkept : kept store.fits (evictionOrder store preserveRef db) =
        evictionOrder store preserveRef db := by
      have horder := hfits
      rw [← @fits_evictionOrder store preserveRef db] at horder
      cases hrows : evictionOrder store preserveRef db with
      | nil => rfl
      | cons row rest =>
        rw [hrows] at horder
        rw [kept, if_pos horder]
    rw [HashRefStore.enforceLoop, if_pos hfits]
    exact ⟨[], by rw [hkept, List.nil_append], EvictedIds.refl sha256Hex db, hkept.symm⟩
  | case2 tick db hfits hnone =>
    have hempty : evictionOrder store preserveRef db = [] := by
      rw [victim_eq_head] at hnone
      exact List.head?_eq_none_iff.mp hnone
    have hloop : store.enforceLoop preserveRef sha256Hex clock tick db = db := by
      rw [HashRefStore.enforceLoop, if_neg hfits]
      split
      case h_1 => rfl
      case h_2 row hrow =>
        rw [hnone] at hrow
        cases hrow
    rw [hloop, hempty]
    exact ⟨[], rfl, EvictedIds.refl sha256Hex db, rfl⟩
  | case3 tick db hfits row hrow ih =>
    rcases ih with ⟨gone, hsplit, hevicted, horder⟩
    have hloop : store.enforceLoop preserveRef sha256Hex clock tick db =
        store.enforceLoop preserveRef sha256Hex clock (tick + 1)
          (db.evictMaterializedRow sha256Hex (clock tick) row) := by
      rw [HashRefStore.enforceLoop, if_neg hfits]
      split
      case h_1 hnone =>
        rw [hrow] at hnone
        cases hnone
      case h_2 row' hrow' =>
        rw [hrow] at hrow'
        cases hrow'
        rfl
    have hhead := hrow
    rw [victim_eq_head, List.head?_eq_some_iff] at hhead
    rcases hhead with ⟨rest, hrest⟩
    have hnotFits : store.fits (row :: rest) = false := by
      rw [← hrest, fits_evictionOrder]
      simpa using hfits
    have hkept : kept store.fits (evictionOrder store preserveRef db) = kept store.fits rest := by
      rw [hrest, kept, if_neg (by simp [hnotFits])]
    have htail := evictionOrder_evict hrest sha256Hex (clock tick)
    rw [htail] at hsplit horder
    refine ⟨row :: gone, ?_, ?_, ?_⟩
    · rw [hkept, hrest, List.cons_append, ← hsplit]
    · rw [hloop, List.map_cons, ← List.singleton_append]
      refine (evictedIds_evict sha256Hex (clock tick) db row).trans hevicted ?_
      -- the head is not evicted again: the rest of the order has other ids
      intro id hid hmem
      rw [List.mem_singleton] at hid
      rcases List.mem_map.mp hmem with ⟨other, hother, rfl⟩
      have hotherRest : other ∈ rest := by
        rw [hsplit]
        exact List.mem_append_left _ hother
      rw [← htail, evictionOrder, mem_inOrder, evictable_evict, List.mem_filter] at hotherRest
      exact of_decide_eq_true hotherRest.2 hid
    · rw [hloop, hkept, horder]

/-! ## 3. The marker -/

theorem isPinned_marked (row : HashRefRow) : row.marked.isPinned = row.isPinned := by
  unfold HashRefRow.isPinned HashRefRow.marked jsonExtract jsonSet
  rw [findMember_putMember (by decide), findMember_putMember (by decide)]

/-- **The marker goes to a row that the loop must leave**, so what may be evicted stays. -/
theorem reportPinnedPressure_spec (store : HashRefStore) (db : HashRefDb) :
    List.Forall₂ (fun row row' => row' = row ∨ store.isHeld db row = true ∧ row' = row.marked)
        db.rows (store.reportPinnedPressure db).rows ∧
      store.evictable (store.reportPinnedPressure db) = store.evictable db := by
  have hsame : List.Forall₂
      (fun row row' => row' = row ∨ store.isHeld db row = true ∧ row' = row.marked)
      db.rows db.rows := List.forall₂_same.mpr fun _ _ => Or.inl rfl
  unfold HashRefStore.reportPinnedPressure
  dsimp only
  split_ifs
  · exact ⟨hsame, rfl⟩
  · exact ⟨hsame, rfl⟩
  · exact ⟨hsame, rfl⟩
  · split
    case h_1 => exact ⟨hsame, rfl⟩
    case h_2 held hheld =>
      have hmem := List.mem_filter.mp (first_mem hheld)
      constructor
      · show List.Forall₂ _ db.rows (updateWhere _ _ db.rows)
        rw [updateWhere, List.forall₂_map_right_iff, List.forall₂_same]
        intro row hrow
        by_cases hid : row.id = held.id
        · have hrowHeld : row = held := eq_of_key_eq db.ids hrow hmem.1 hid
          exact Or.inr ⟨hrowHeld ▸ hmem.2, by simp [hid]⟩
        · exact Or.inl (by simp [hid])
      · -- the held row may not be evicted, before and after
        have hnot : store.isEvictable db held = false := by
          have hisHeld := hmem.2
          simp only [HashRefStore.isHeld, Bool.and_eq_true, Bool.or_eq_true] at hisHeld
          rcases hisHeld.2 with hpin | hlive
          · simp [HashRefStore.isEvictable, hpin]
          · simp [HashRefStore.isEvictable, hlive]
        have hmarked : ∀ row : HashRefRow,
            store.isEvictable db row.marked = store.isEvictable db row := by
          intro row
          unfold HashRefStore.isEvictable
          rw [isPinned_marked]
          rfl
        have hid : ∀ row ∈ db.rows, decide (row.id = held.id) = true →
            store.isEvictable db row = false := by
          intro row hrow heq
          rw [eq_of_key_eq db.ids hrow hmem.1 (of_decide_eq_true heq)]
          exact hnot
        have hselect := select_updateWhere (q := store.isEvictable db) (f := HashRefRow.marked)
          fun row hrow heq => (hmarked row).trans (hid row hrow heq)
        refine hselect.trans (List.filter_eq_self.mpr ?_)
        intro row hrow
        rcases List.mem_filter.mp hrow with ⟨hrow, hevictable⟩
        cases heq : decide (row.id = held.id) with
        | false => rfl
        | true =>
          rw [hid row hrow heq] at hevictable
          cases hevictable

/-! ## 4. The budget -/

/-- A row before and after: evicted if it is one of those that go, and otherwise as it was, but for
the marker. -/
def RowAfter (sha256Hex : Utf16 → Utf16) (gone : List HashRefRow) (row row' : HashRefRow) : Prop :=
  (row ∈ gone ∧ ∃ times, row' = row.evicted sha256Hex times) ∨
    row ∉ gone ∧ (row' = row ∨ row' = row.marked)

/-- **Eviction is exact.** From every state the loop ends; the rows that go are the shortest prefix
of the eviction order without which the rest fits, or all of it; no pinned row and no evidence of a
running call is among them; and what may still be evicted is the rest of the order, within both
budgets unless it is empty. -/
theorem eviction_exact (store : HashRefStore) (preserveRef : String) (sha256Hex : Utf16 → Utf16)
    (clock : ℕ → EvictionTimes) (db : HashRefDb) :
    let order := evictionOrder store preserveRef db
    let after := store.enforceMaterializedBudget preserveRef sha256Hex clock db
    ∃ k ≤ order.length,
      List.Forall₂ (RowAfter sha256Hex (order.take k)) db.rows after.rows ∧
      (store.fits (order.drop k) = true ∨ order.drop k = []) ∧
      (∀ j < k, store.fits (order.drop j) = false) ∧
      (∀ row ∈ order.take k, row.isPinned = false ∧ db.liveEvidence row = false) ∧
      evictionOrder store preserveRef after = order.drop k ∧
      (store.fits (store.evictable after) = true ∨ store.evictable after = []) := by
  intro order after
  rcases kept_spec store.fits order with ⟨k, hk, hkept, hdone, hleast⟩
  rcases enforceLoop_spec store preserveRef sha256Hex clock 0 db with
    ⟨gone, hsplit, hevicted, horder⟩
  rcases reportPinnedPressure_spec store (store.enforceLoop preserveRef sha256Hex clock 0 db) with
    ⟨hmarked, hevictable⟩
  have hgone : gone = order.take k := by
    have happend : gone ++ order.drop k = order.take k ++ order.drop k := by
      rw [List.take_append_drop, ← hkept]
      exact hsplit.symm
    exact List.append_cancel_right happend
  have hafter : evictionOrder store preserveRef after = order.drop k := by
    have heq : evictionOrder store preserveRef after =
        evictionOrder store preserveRef (store.enforceLoop preserveRef sha256Hex clock 0 db) := by
      unfold evictionOrder
      rw [← hevictable]
      rfl
    rw [heq, horder, ← hkept]
  have hmem : ∀ row ∈ order.take k, row ∈ db.rows ∧ store.isEvictable db row = true := by
    intro row hrow
    exact mem_evictable.mp (mem_inOrder.mp (List.mem_of_mem_take hrow))
  refine ⟨k, hk, ?_, hdone, hleast, ?_, hafter, ?_⟩
  · -- a row of the table is one that goes when its id is
    have hids : ∀ row ∈ db.rows, row.id ∈ gone.map (·.id) ↔ row ∈ order.take k := by
      intro row hrow
      rw [hgone]
      constructor
      · intro hid
        rcases List.mem_map.mp hid with ⟨other, hother, heq⟩
        rwa [← eq_of_key_eq db.ids (hmem other hother).1 hrow heq]
      · exact List.mem_map_of_mem
    refine forall₂_comp hevicted.rows hmarked ?_
    intro row hrow row' row'' hfirst hsecond
    rcases hfirst with ⟨hid, times, rfl⟩ | ⟨hid, hsame⟩
    · refine Or.inl ⟨(hids row hrow).mp hid, times, ?_⟩
      rcases hsecond with rfl | ⟨hheld, _⟩
      · rfl
      · -- an evicted row is a descriptor, and no descriptor is marked
        simp [HashRefStore.isHeld, HashRefStore.owns, HashRefRow.evicted] at hheld
    · refine Or.inr ⟨fun hgo => hid ((hids row hrow).mpr hgo), ?_⟩
      rw [hsame] at hsecond
      rcases hsecond with rfl | ⟨_, rfl⟩
      · exact Or.inl rfl
      · exact Or.inr rfl
  · intro row hrow
    have hrowEvictable := (hmem row hrow).2
    simp only [HashRefStore.isEvictable, Bool.and_eq_true, Bool.not_eq_true'] at hrowEvictable
    exact ⟨hrowEvictable.1.2, hrowEvictable.2⟩
  · rw [← @fits_evictionOrder store preserveRef after, hafter]
    rcases hdone with hfits | hnil
    · exact Or.inl hfits
    · right
      have hperm := inOrder_perm (evictionKey preserveRef) (store.evictable after)
      have hnil' : inOrder (evictionKey preserveRef) (store.evictable after) = [] :=
        hafter.trans hnil
      rw [hnil'] at hperm
      exact hperm.symm.eq_nil

end PosseClient
