/-
# When buffer versions only go forward

The two version checks of a push look at the entry it finds before its parse; what it stores, or
puts back, replaces the entry of its key after it.  Versions go forward exactly as long as each
write step stores an entry that the checks would still let pass.

* `OverlayEntry.supersedes` is what the checks ensure of a new entry against an old one.
* `WritesForward` is the condition on the write steps, `BufferSystem.Forward` the invariant.
* A checkpoint that clears a buffer starts its versions anew: `retired` holds what was acknowledged
  before it.
-/
import PosseClient.Atlas.BufferSteps

namespace PosseClient

open Table

/-! ## 1. Versions -/

/-- A later version than the old entry's, or its version with the same text. -/
def OverlayEntry.supersedes (new old : OverlayEntry) : Prop :=
  ∀ w, old.version = some w → ∃ v, new.version = some v ∧
    (w < v ∨ w = v ∧ new.contentHash = old.contentHash)

theorem OverlayEntry.supersedes.trans {a b c : OverlayEntry} (hab : a.supersedes b)
    (hbc : b.supersedes c) : a.supersedes c := by
  intro w hw
  obtain ⟨v, hv, hwv⟩ := hbc w hw
  obtain ⟨u, hu, hvu⟩ := hab v hv
  refine ⟨u, hu, ?_⟩
  rcases hwv with hlt | ⟨rfl, hhash⟩
  · rcases hvu with hlt' | ⟨rfl, -⟩
    · exact Or.inl (hlt.trans hlt')
    · exact Or.inl hlt
  · rcases hvu with hlt' | ⟨rfl, hhash'⟩
    · exact Or.inl hlt'
    · exact Or.inr ⟨rfl, hhash'.trans hhash⟩

/-- No version is lost, and none gets smaller. -/
def versionLe (old new : Option ℚ) : Prop := ∀ w, old = some w → ∃ v, new = some v ∧ w ≤ v

theorem versionLe.refl (a : Option ℚ) : versionLe a a := fun w hw => ⟨w, hw, le_rfl⟩

theorem versionLe.trans {a b c : Option ℚ} (hab : versionLe a b) (hbc : versionLe b c) :
    versionLe a c := by
  intro w hw
  obtain ⟨v, hv, hwv⟩ := hab w hw
  obtain ⟨u, hu, hvu⟩ := hbc v hv
  exact ⟨u, hu, hwv.trans hvu⟩

theorem versionLe.none_left (b : Option ℚ) : versionLe none b := by
  intro w hw
  cases hw

theorem OverlayEntry.supersedes.versionLe {new old : OverlayEntry} (h : new.supersedes old) :
    versionLe old.version new.version := by
  intro w hw
  obtain ⟨v, hv, hlt | ⟨rfl, -⟩⟩ := h w hw
  · exact ⟨v, hv, hlt.le⟩
  · exact ⟨w, hv, le_rfl⟩

/-- The version a key has in memory. -/
def BufferStore.version (store : BufferStore) (k : BufferKey) : Option ℚ :=
  (store.get k).bind OverlayEntry.version

/-- The version a key has on disk. -/
def BufferStore.fileVersion (store : BufferStore) (k : BufferKey) : Option ℚ :=
  (store.file k).bind PersistedBuffer.version

/-! ## 2. The condition and the invariant -/

/-- **The condition on a write step.**  What a push stores supersedes the entry its key holds then,
and so does what a failing push puts back; and a version that was acknowledged before a checkpoint
cleared the buffer does not come again with another text. -/
def WritesForward (sha256 : String → String) (s : BufferSystem) : BufferOp → Prop
  | .resume call parse updatedAt true =>
    ∀ push, s.pushes call = some push →
      let entry := makeEntry sha256 push.params parse updatedAt
      (∀ cur, s.store.get push.params.key = some cur → entry.supersedes cur) ∧
      ∀ old ∈ s.retired, old.key = entry.key → old.version = entry.version →
        old.contentHash = entry.contentHash
  | .resume call _ _ false =>
    ∀ push, s.pushes call = some push → ∀ cur, s.store.get push.params.key = some cur →
      ∃ found, push.existing = some found ∧ found.supersedes cur
  | _ => True

instance (new old : OverlayEntry) : Decidable (new.supersedes old) :=
  decidable_of_iff (∀ w ∈ old.version, ∃ v ∈ new.version,
    (w < v ∨ w = v ∧ new.contentHash = old.contentHash)) (by simp [OverlayEntry.supersedes])

instance (sha256 : String → String) (s : BufferSystem) (op : BufferOp) :
    Decidable (WritesForward sha256 s op) :=
  match op with
  | .start _ _ => isTrue trivial
  | .checkpoint _ _ => isTrue trivial
  | .resume call parse updatedAt true =>
    decidable_of_iff (∀ push ∈ s.pushes call,
      (∀ cur ∈ s.store.get push.params.key,
        (makeEntry sha256 push.params parse updatedAt).supersedes cur) ∧
      ∀ old ∈ s.retired, old.key = (makeEntry sha256 push.params parse updatedAt).key →
        old.version = (makeEntry sha256 push.params parse updatedAt).version →
        old.contentHash = (makeEntry sha256 push.params parse updatedAt).contentHash)
      (by simp [WritesForward])
  | .resume call _ _ false =>
    decidable_of_iff (∀ push ∈ s.pushes call, ∀ cur ∈ s.store.get push.params.key,
      ∃ found ∈ push.existing, found.supersedes cur) (by simp [WritesForward])

/-- A push names a version. -/
def BufferOp.Numbered : BufferOp → Prop
  | .start _ params => params.version.isSome
  | _ => True

instance (op : BufferOp) : Decidable op.Numbered :=
  match op with
  | .start _ params => inferInstanceAs (Decidable (params.version.isSome = true))
  | .resume _ _ _ _ => isTrue trivial
  | .checkpoint _ _ => isTrue trivial

/-- The step is a checkpoint that clears the buffer of the key. -/
def BufferOp.Clears (s : BufferSystem) (k : BufferKey) (op : BufferOp) : Prop :=
  ∃ params diskHash entry, op = .checkpoint params diskHash ∧ params.key = k ∧
    s.store.get k = some entry ∧ params.shouldClear entry diskHash = true

/-- What a run whose write steps go forward keeps. -/
structure BufferSystem.Forward (sha256 : String → String) (s : BufferSystem) : Prop where
  waiting : s.Waiting
  numbered : ∀ call push, s.pushes call = some push → push.params.version.isSome
  file : ∀ k, versionLe (s.store.fileVersion k) (s.store.version k)
  current : ∀ e ∈ s.acknowledged, ∃ cur, s.store.get e.key = some cur ∧ cur.supersedes e
  made : ∀ e ∈ s.acknowledged ++ s.retired,
    e.version.isSome ∧ e.contentHash = sha256 e.content
  unique : ∀ e ∈ s.acknowledged ++ s.retired, ∀ e' ∈ s.acknowledged ++ s.retired,
    e.key = e'.key → e.version = e'.version → e.contentHash = e'.contentHash

section Steps

variable {sha256 : String → String} {s : BufferSystem}

/-- A write step that stores: the entry of each other key stays. -/
theorem get_stored {entry : OverlayEntry} {k : BufferKey} :
    ((s.store.set entry).persistEntry entry).get k =
      if entry.key = k then some entry else s.store.get k := by
  simp

/-- Memory moves forward, or a checkpoint clears the key. -/
theorem BufferSystem.Forward.version_step (h : s.Forward sha256) {op : BufferOp}
    (hw : WritesForward sha256 s op) {k : BufferKey} (hclear : ¬ op.Clears s k) :
    versionLe (s.store.version k) ((bufferStep sha256 s op).store.version k) := by
  rcases bufferStep_cases sha256 s op with
    ⟨pushes, heq, -⟩ | ⟨call, push, parse, updatedAt, entry, rfl, hcall, rfl, heq⟩ |
    ⟨call, push, parse, updatedAt, entry, rfl, hcall, rfl, heq⟩ |
    ⟨params, diskHash, entry, rfl, hget, hshould, heq⟩
  · rw [heq]
    exact versionLe.refl _
  · rw [heq]
    unfold BufferStore.version
    rw [get_stored]
    split_ifs with hk
    · cases hcur : s.store.get k with
      | none => exact versionLe.none_left _
      | some cur => exact ((hw push hcall).1 cur (by rw [← hcur, ← hk]; rfl)).versionLe
    · exact versionLe.refl _
  · rw [heq]
    have hsound := h.waiting call push hcall
    unfold BufferStore.version
    rw [BufferStore.get_rollback fun found hfound => (hsound.key found hfound).trans
      (makeEntry_key sha256 push.params parse updatedAt).symm]
    split_ifs with hk
    · cases hcur : s.store.get k with
      | none => exact versionLe.none_left _
      | some cur =>
        obtain ⟨found, hfound, hsuper⟩ := hw push hcall cur (by rw [← hcur, ← hk]; rfl)
        rw [hfound]
        exact hsuper.versionLe
    · exact versionLe.refl _
  · rw [heq]
    unfold BufferStore.version
    simp only [BufferStore.get_removePersistedEntry, BufferStore.get_delete]
    split_ifs with hk
    · exact absurd ⟨params, diskHash, entry, rfl, hk.symm, hk ▸ hget, hshould⟩ hclear
    · exact versionLe.refl _

/-- So does the disk. -/
theorem BufferSystem.Forward.fileVersion_step (h : s.Forward sha256) {op : BufferOp}
    (hw : WritesForward sha256 s op) {k : BufferKey} (hclear : ¬ op.Clears s k) :
    versionLe (s.store.fileVersion k) ((bufferStep sha256 s op).store.fileVersion k) := by
  rcases bufferStep_cases sha256 s op with
    ⟨pushes, heq, -⟩ | ⟨call, push, parse, updatedAt, entry, rfl, hcall, rfl, heq⟩ |
    ⟨call, push, parse, updatedAt, entry, rfl, hcall, rfl, heq⟩ |
    ⟨params, diskHash, entry, rfl, hget, hshould, heq⟩
  · rw [heq]
    exact versionLe.refl _
  · -- the file gets the version that memory gets, and memory was not behind the file
    have hmemory := h.version_step hw hclear
    rw [heq] at hmemory ⊢
    unfold BufferStore.fileVersion
    simp only [BufferStore.file_persistEntry, BufferStore.file_set]
    split_ifs with hk
    · refine (h.file k).trans (hmemory.trans ?_)
      unfold BufferStore.version
      rw [get_stored, if_pos hk]
      exact versionLe.refl _
    · exact versionLe.refl _
  · rw [heq]
    unfold BufferStore.fileVersion
    rw [BufferStore.file_rollback]
    exact versionLe.refl _
  · rw [heq]
    unfold BufferStore.fileVersion
    simp only [BufferStore.file_removePersistedEntry, BufferStore.file_delete]
    split_ifs with hk
    · exact absurd ⟨params, diskHash, entry, rfl, hk.symm, hk ▸ hget, hshould⟩ hclear
    · exact versionLe.refl _

/-- The waiting pushes of a step name their versions. -/
theorem BufferSystem.Forward.numbered_step (h : s.Forward sha256) {op : BufferOp}
    (hn : op.Numbered) : ∀ call push, (bufferStep sha256 s op).pushes call = some push →
      push.params.version.isSome := by
  have hupdate : ∀ call, ∀ call' push,
      Function.update s.pushes call none call' = some push → push.params.version.isSome := by
    intro call call' push hpush
    by_cases hc : call' = call
    · subst hc
      rw [Function.update_self] at hpush
      cases hpush
    · rw [Function.update_of_ne hc] at hpush
      exact h.numbered call' push hpush
  rcases bufferStep_cases sha256 s op with
    ⟨pushes, heq, hpushes⟩ | ⟨call, _, _, _, _, -, -, -, heq⟩ |
    ⟨call, _, _, _, _, -, -, -, heq⟩ | ⟨_, _, _, -, -, -, heq⟩
  · rw [heq]
    intro call push hpush
    rcases hpushes call push hpush with hold | ⟨params, rfl, hparams, -⟩
    · exact h.numbered call push hold
    · rw [hparams]
      exact hn
  · rw [heq]
    exact hupdate call
  · rw [heq]
    exact hupdate call
  · rw [heq]
    exact h.numbered

/-- A new acknowledgement agrees with every one of its key and version. -/
theorem BufferSystem.Forward.agrees (h : s.Forward sha256) {call : ℕ} {push : PendingPush}
    {parse : BufferParse} {updatedAt : String} (hcall : s.pushes call = some push)
    (hw : WritesForward sha256 s (.resume call parse updatedAt true)) {e : OverlayEntry}
    (he : e ∈ s.acknowledged ++ s.retired)
    (hkey : e.key = (makeEntry sha256 push.params parse updatedAt).key)
    (hversion : e.version = (makeEntry sha256 push.params parse updatedAt).version) :
    e.contentHash = (makeEntry sha256 push.params parse updatedAt).contentHash := by
  obtain ⟨hforward, hretired⟩ := hw push hcall
  rcases List.mem_append.mp he with he' | he'
  · -- the live entry supersedes the old push, the new one the live entry
    obtain ⟨cur, hcur, hsuper⟩ := h.current e he'
    rw [hkey] at hcur
    have hnew := (hforward cur hcur).trans hsuper
    obtain ⟨w, hwv⟩ := Option.isSome_iff_exists.mp (h.made e he).1
    obtain ⟨v, hv, hlt | ⟨-, hhash⟩⟩ := hnew w hwv
    · rw [hversion, hv] at hwv
      exact absurd (Option.some.inj hwv) hlt.ne'
    · exact hhash.symm
  · exact hretired e he' hkey hversion

theorem BufferSystem.Forward.step (h : s.Forward sha256) {op : BufferOp} (hn : op.Numbered)
    (hw : WritesForward sha256 s op) : (bufferStep sha256 s op).Forward sha256 := by
  have hwaiting : (bufferStep sha256 s op).Waiting := h.waiting.step op
  have hnumbered := h.numbered_step hn
  rcases bufferStep_cases sha256 s op with
    ⟨pushes, heq, -⟩ | ⟨call, push, parse, updatedAt, entry, rfl, hcall, rfl, heq⟩ |
    ⟨call, push, parse, updatedAt, entry, rfl, hcall, rfl, heq⟩ |
    ⟨params, diskHash, entry, rfl, hget, hshould, heq⟩
  · rw [heq] at hwaiting hnumbered ⊢
    exact ⟨hwaiting, hnumbered, h.file, h.current, h.made, h.unique⟩
  · -- a stored push
    have hagrees := fun e he => h.agrees hcall hw (e := e) he
    rw [heq] at hwaiting hnumbered ⊢
    have hmem : ∀ e, e ∈ (s.acknowledged ++ [makeEntry sha256 push.params parse updatedAt]) ++
        s.retired → e = makeEntry sha256 push.params parse updatedAt ∨
          e ∈ s.acknowledged ++ s.retired := by
      intro e he
      simp only [List.mem_append, List.mem_singleton] at he ⊢
      tauto
    refine ⟨hwaiting, hnumbered, ?_, ?_, ?_, ?_⟩
    case refine_1 =>
      intro k
      unfold BufferStore.fileVersion BufferStore.version
      simp only [BufferStore.file_persistEntry, BufferStore.file_set, get_stored]
      by_cases hk : (makeEntry sha256 push.params parse updatedAt).key = k
      · simp only [hk, ↓reduceIte]
        exact versionLe.refl _
      · simp only [hk, ↓reduceIte]
        exact h.file k
    case refine_2 =>
      intro e he
      rcases List.mem_append.mp he with he | he
      · obtain ⟨cur, hcur, hsuper⟩ := h.current e he
        simp only [get_stored]
        split_ifs with hk
        · refine ⟨_, rfl, ((hw push hcall).1 cur ?_).trans hsuper⟩
          rw [← hcur, ← hk]
          rfl
        · exact ⟨cur, hcur, hsuper⟩
      · rw [List.mem_singleton.mp he]
        refine ⟨_, by rw [get_stored, if_pos rfl], ?_⟩
        exact fun w hwv => ⟨w, hwv, Or.inr ⟨rfl, rfl⟩⟩
    case refine_3 =>
      intro e he
      rcases hmem e he with rfl | he
      · exact ⟨h.numbered call push hcall, rfl⟩
      · exact h.made e he
    case refine_4 =>
      intro e he e' he' hkey hversion
      rcases hmem e he with rfl | he
      · rcases hmem e' he' with rfl | he'
        · rfl
        · exact (hagrees e' he' hkey.symm hversion.symm).symm
      · rcases hmem e' he' with rfl | he'
        · exact hagrees e he hkey hversion
        · exact h.unique e he e' he' hkey hversion
  · -- a push that puts back what it found
    have hsound := h.waiting call push hcall
    have hrollback : ∀ k, (s.store.rollback (makeEntry sha256 push.params parse updatedAt)
        push.existing).get k =
          if push.params.key = k then push.existing else s.store.get k := by
      intro k
      rw [BufferStore.get_rollback fun found hfound => (hsound.key found hfound).trans
        (makeEntry_key sha256 push.params parse updatedAt).symm]
      rfl
    have hclears : ∀ k, ¬ BufferOp.Clears s k (.resume call parse updatedAt false) := by
      rintro k ⟨params, diskHash, entry, hop, -⟩
      cases hop
    have hmemory := fun k => h.version_step hw (hclears k)
    rw [heq] at hwaiting hnumbered hmemory ⊢
    refine ⟨hwaiting, hnumbered, ?_, ?_, h.made, h.unique⟩
    case refine_1 =>
      intro k
      unfold BufferStore.fileVersion
      rw [BufferStore.file_rollback]
      exact (h.file k).trans (hmemory k)
    case refine_2 =>
      intro e he
      obtain ⟨cur, hcur, hsuper⟩ := h.current e he
      simp only [hrollback]
      split_ifs with hk
      · obtain ⟨found, hfound, hover⟩ := hw push hcall cur (by rw [hk]; exact hcur)
        exact ⟨found, hfound, hover.trans hsuper⟩
      · exact ⟨cur, hcur, hsuper⟩
  · -- a checkpoint that clears: what was acknowledged for the key is retired
    rw [heq] at hwaiting hnumbered ⊢
    have hmem : ∀ e, e ∈ s.acknowledged.filter (fun e => decide (e.key ≠ params.key)) ++
        (s.retired ++ s.acknowledged.filter (fun e => decide (e.key = params.key))) →
          e ∈ s.acknowledged ++ s.retired := by
      intro e he
      simp only [List.mem_append, List.mem_filter] at he ⊢
      tauto
    refine ⟨hwaiting, hnumbered, ?_, ?_, fun e he => h.made e (hmem e he),
      fun e he e' he' => h.unique e (hmem e he) e' (hmem e' he')⟩
    case refine_1 =>
      intro k
      unfold BufferStore.fileVersion BufferStore.version
      simp only [BufferStore.file_removePersistedEntry, BufferStore.file_delete,
        BufferStore.get_removePersistedEntry, BufferStore.get_delete]
      split_ifs with hk
      · exact versionLe.refl _
      · exact h.file k
    case refine_2 =>
      intro e he
      obtain ⟨he, hkey⟩ := List.mem_filter.mp he
      obtain ⟨cur, hcur, hsuper⟩ := h.current e he
      refine ⟨cur, ?_, hsuper⟩
      simp only [BufferStore.get_removePersistedEntry, BufferStore.get_delete]
      rw [if_neg (of_decide_eq_true hkey)]
      exact hcur

end Steps

theorem BufferSystem.forward_loaded {sha256 : String → String} {disk : List PersistedBuffer}
    (h : PersistedFiles sha256 disk) : (BufferSystem.loaded sha256 disk).Forward sha256 where
  waiting := by simp [BufferSystem.Waiting, BufferSystem.loaded]
  numbered := by simp [BufferSystem.loaded]
  file := by
    intro k
    have hagree := BufferSystem.loaded_agree h k
    unfold BufferStore.fileVersion BufferStore.version
    cases hget : (BufferSystem.loaded sha256 disk).store.get k with
    | none =>
      cases hfile : (BufferSystem.loaded sha256 disk).store.file k with
      | none => exact versionLe.refl _
      | some file => simp [hget, hfile] at hagree
    | some entry =>
      cases hfile : (BufferSystem.loaded sha256 disk).store.file k with
      | none => exact versionLe.none_left _
      | some file =>
        simp only [hget, hfile, Option.map_some, Option.some.injEq, Prod.mk.injEq] at hagree
        simp only [Option.bind_some, hagree.2]
        exact versionLe.refl _
  current := by simp [BufferSystem.loaded]
  made := by simp [BufferSystem.loaded]
  unique := by simp [BufferSystem.loaded]

/-! ## 3. The theorem of the runs -/

/-- A version of a file is stored, and the push of the next one has begun. -/
def orderedRun : List BufferOp :=
  [.start 0 { filePath := "a.js", content := "one", version := some 1 },
    .resume 0 ⟨true, 1, none⟩ "t1" true,
    .start 1 { filePath := "a.js", content := "two", version := some 2 }]

def overtakenRun : List BufferOp :=
  [.start 0 { filePath := "a.js", content := "one", version := some 5 },
    .start 1 { filePath := "a.js", content := "two", version := some 6 },
    .resume 1 ⟨true, 1, none⟩ "t1" true]

end PosseClient
