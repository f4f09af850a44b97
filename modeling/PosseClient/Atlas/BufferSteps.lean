/-
# What the steps on live buffers do to each key

The reads of a key after each write, the cases of a step, and the start: the buffers that a process
loads from files it could have written agree with those files.

* `bufferStep_cases` is what the later modules use; they never unfold a step.
* `BufferStore.Agree`: a key has a buffer exactly when it has a file, with the same text.
* `persistedFiles_run`: what a process leaves on disk the next one can start from.
-/
import PosseClient.Lib.Runs
import PosseClient.Atlas.LiveBuffers

namespace PosseClient

open Table

/-! ## 1. Reads after writes -/

section Reads

variable {store : BufferStore} {entry : OverlayEntry} {k k' : BufferKey}

@[simp] theorem BufferStore.get_set :
    (store.set entry).get k = if entry.key = k then some entry else store.get k :=
  KeyedMap.lookup_put

@[simp] theorem BufferStore.file_set : (store.set entry).file k = store.file k := rfl

@[simp] theorem BufferStore.get_persistEntry : (store.persistEntry entry).get k = store.get k := rfl

@[simp] theorem BufferStore.file_persistEntry :
    (store.persistEntry entry).file k =
      if entry.key = k then some entry.persisted else store.file k :=
  KeyedMap.lookup_put

@[simp] theorem BufferStore.get_delete :
    (store.delete k').get k = if k = k' then none else store.get k :=
  KeyedMap.lookup_remove

@[simp] theorem BufferStore.file_delete : (store.delete k').file k = store.file k := rfl

@[simp] theorem BufferStore.get_removePersistedEntry :
    (store.removePersistedEntry k').get k = store.get k := rfl

@[simp] theorem BufferStore.file_removePersistedEntry :
    (store.removePersistedEntry k').file k = if k = k' then none else store.file k :=
  KeyedMap.lookup_remove

/-- **A rollback puts back what the push found**, whatever the key holds by then. -/
theorem BufferStore.get_rollback {existing : Option OverlayEntry}
    (h : ∀ found, existing = some found → found.key = entry.key) :
    (store.rollback entry existing).get k =
      if entry.key = k then existing else store.get k := by
  cases existing with
  | none =>
    simp only [BufferStore.rollback, BufferStore.get_delete, BufferStore.get_set]
    by_cases hk : k = entry.key
    · simp [hk]
    · have hk' : entry.key ≠ k := fun heq => hk heq.symm
      simp [hk, hk']
  | some found =>
    simp only [BufferStore.rollback, BufferStore.get_set, h found rfl]
    by_cases hk : entry.key = k
    · simp [hk]
    · simp [hk]

@[simp] theorem BufferStore.file_rollback {existing : Option OverlayEntry} :
    (store.rollback entry existing).file k = store.file k := by
  cases existing <;> rfl

end Reads

/-! ## 2. Pushes that wait -/

/-- What a push has checked before its `await`. -/
structure PendingPush.Sound (push : PendingPush) : Prop where
  path : isCanonicalRepoPath push.params.filePath = true
  size : push.params.content.utf8ByteSize ≤ maxBufferBytes
  key : ∀ found, push.existing = some found → found.key = push.params.key

theorem pushStart_sound {sha256 : String → String} {buffers : List OverlayEntry}
    {params : BufferPushParams} {push : PendingPush}
    (h : pushStart sha256 buffers params = .ok push) :
    push.Sound ∧ push.params = params := by
  unfold pushStart at h
  split_ifs at h with hpath hsize
  cases hv : checkVersions sha256 params (lookup OverlayEntry.key params.key buffers) with
  | error e => simp [hv] at h
  | ok u =>
    simp only [hv] at h
    split_ifs at h with hdraft
    simp only [Except.ok.injEq] at h
    subst h
    refine ⟨⟨by simpa using hpath, not_lt.mp hsize, ?_⟩, rfl⟩
    intro found hfound
    exact lookup_key hfound

/-! ## 3. The cases of a step -/

/-- **What a step is.**  It changes only which pushes wait, or it is the write of a waiting push,
which succeeds or fails, or it is a checkpoint that clears a buffer. -/
theorem bufferStep_cases (sha256 : String → String) (s : BufferSystem) (op : BufferOp) :
    (∃ pushes, bufferStep sha256 s op = { s with pushes := pushes } ∧
      (∀ call push, pushes call = some push → s.pushes call = some push ∨
        ∃ params, op = .start call params ∧ push.params = params ∧ push.Sound)) ∨
    (∃ call push parse updatedAt entry, op = .resume call parse updatedAt true ∧
      s.pushes call = some push ∧ entry = makeEntry sha256 push.params parse updatedAt ∧
      bufferStep sha256 s op =
        { s with
          store := (s.store.set entry).persistEntry entry
          pushes := Function.update s.pushes call none
          acknowledged := s.acknowledged ++ [entry] }) ∨
    (∃ call push parse updatedAt entry, op = .resume call parse updatedAt false ∧
      s.pushes call = some push ∧ entry = makeEntry sha256 push.params parse updatedAt ∧
      bufferStep sha256 s op =
        { s with
          store := s.store.rollback entry push.existing
          pushes := Function.update s.pushes call none
          failed := s.failed ++ [⟨(s.store.get entry.key, s.store.file entry.key),
            ((s.store.rollback entry push.existing).get entry.key,
              (s.store.rollback entry push.existing).file entry.key)⟩] }) ∨
    ∃ params diskHash entry, op = .checkpoint params diskHash ∧
      s.store.get params.key = some entry ∧ params.shouldClear entry diskHash = true ∧
      bufferStep sha256 s op =
        { s with
          store := (s.store.delete params.key).removePersistedEntry params.key
          acknowledged := s.acknowledged.filter (fun e => decide (e.key ≠ params.key))
          retired := s.retired ++
            s.acknowledged.filter (fun e => decide (e.key = params.key)) } := by
  cases op with
  | start call params =>
    left
    cases hcall : s.pushes call with
    | some push =>
      exact ⟨s.pushes, by simp [bufferStep, hcall], fun _ _ h => Or.inl h⟩
    | none =>
      cases hstart : pushStart sha256 s.store.buffers params with
      | error e => exact ⟨s.pushes, by simp [bufferStep, hcall, hstart], fun _ _ h => Or.inl h⟩
      | ok push =>
        refine ⟨Function.update s.pushes call (some push), by simp [bufferStep, hcall, hstart], ?_⟩
        intro call' push' hpush
        by_cases heq : call' = call
        · subst heq
          rw [Function.update_self] at hpush
          obtain rfl := Option.some.inj hpush
          obtain ⟨hsound, hparams⟩ := pushStart_sound hstart
          exact Or.inr ⟨params, rfl, hparams, hsound⟩
        · rw [Function.update_of_ne heq] at hpush
          exact Or.inl hpush
  | resume call parse updatedAt canPersist =>
    cases hcall : s.pushes call with
    | none =>
      exact Or.inl ⟨s.pushes, by simp [bufferStep, hcall], fun _ _ h => Or.inl h⟩
    | some push =>
      cases canPersist with
      | true =>
        refine Or.inr (Or.inl ⟨call, push, parse, updatedAt, _, rfl, hcall, rfl, ?_⟩)
        simp [bufferStep, hcall, pushWrite]
      | false =>
        refine Or.inr (Or.inr (Or.inl ⟨call, push, parse, updatedAt, _, rfl, hcall, rfl, ?_⟩))
        simp [bufferStep, hcall, pushWrite]
  | checkpoint params diskHash =>
    by_cases hpath : isCanonicalRepoPath params.filePath = true
    case neg =>
      refine Or.inl ⟨s.pushes, ?_, fun _ _ h => Or.inl h⟩
      have hsame : bufferCheckpoint s.store params diskHash = s.store := by
        simp [bufferCheckpoint, hpath]
      cases hget : s.store.get params.key with
      | none => simp [bufferStep, hsame, hget]
      | some entry => simp [bufferStep, hsame, hget]
    cases hget : s.store.get params.key with
    | none =>
      refine Or.inl ⟨s.pushes, ?_, fun _ _ h => Or.inl h⟩
      simp [bufferStep, bufferCheckpoint, hpath, hget]
    | some entry =>
      by_cases hclear : params.shouldClear entry diskHash = true
      · refine Or.inr (Or.inr (Or.inr ⟨params, diskHash, entry, rfl, hget, hclear, ?_⟩))
        simp [bufferStep, bufferCheckpoint, hpath, hget, hclear]
      · refine Or.inl ⟨s.pushes, ?_, fun _ _ h => Or.inl h⟩
        simp [bufferStep, bufferCheckpoint, hpath, hget, hclear]

/-- Every waiting push has passed its checks. -/
def BufferSystem.Waiting (s : BufferSystem) : Prop :=
  ∀ call push, s.pushes call = some push → push.Sound

theorem BufferSystem.Waiting.step {sha256 : String → String} {s : BufferSystem} (h : s.Waiting)
    (op : BufferOp) : (bufferStep sha256 s op).Waiting := by
  have hupdate : ∀ call, ∀ call' push,
      Function.update s.pushes call none call' = some push → push.Sound := by
    intro call call' push hpush
    by_cases heq : call' = call
    · subst heq
      rw [Function.update_self] at hpush
      cases hpush
    · rw [Function.update_of_ne heq] at hpush
      exact h call' push hpush
  rcases bufferStep_cases sha256 s op with
    ⟨pushes, heq, hpushes⟩ | ⟨call, push, _, _, _, _, _, _, heq⟩ |
    ⟨call, push, _, _, _, _, _, _, heq⟩ | ⟨params, _, _, _, _, _, heq⟩
  · rw [heq]
    intro call push hpush
    rcases hpushes call push hpush with hold | ⟨-, -, -, hsound⟩
    · exact h call push hold
    · exact hsound
  · rw [heq]
    exact hupdate call
  · rw [heq]
    exact hupdate call
  · rw [heq]
    exact h

/-! ## 4. Loading -/

/-- The buffer of a key and its file: both or neither, with one text and one version. -/
def BufferStore.Agree (store : BufferStore) : Prop :=
  ∀ k, (store.get k).map (fun e => (e.contentHash, e.version)) =
    (store.file k).map (fun f => (f.contentHash, f.version))

/-- Files that a process of this program has written: one for each key, each accepted when it is
loaded, with the hash of its text. -/
structure PersistedFiles (sha256 : String → String) (disk : List PersistedBuffer) : Prop where
  nodup : (disk.map PersistedBuffer.key).Nodup
  accepted : ∀ file ∈ disk, file.isAccepted sha256 = true
  hash : ∀ file ∈ disk, file.contentHash = sha256 file.content
  session : ∀ file ∈ disk, normalizeSession (some file.sessionId) = file.sessionId

/-- **What is loaded from such files**: the entry of each. -/
theorem get_loadPersistedBuffers {sha256 : String → String} {disk : List PersistedBuffer}
    (h : PersistedFiles sha256 disk) (k : BufferKey) :
    lookup OverlayEntry.key k (loadPersistedBuffers sha256 disk) =
      (lookup PersistedBuffer.key k disk).map (PersistedBuffer.entry sha256) := by
  induction disk using List.reverseRecOn with
  | nil => rfl
  | append_singleton disk file ih =>
    have hmem : file ∈ disk ++ [file] := List.mem_append_right _ (List.mem_singleton_self file)
    have hkeys := h.nodup
    rw [List.map_append, List.nodup_append] at hkeys
    have hinit : PersistedFiles sha256 disk :=
      ⟨hkeys.1, fun f hf => h.accepted f (List.mem_append_left _ hf),
        fun f hf => h.hash f (List.mem_append_left _ hf),
        fun f hf => h.session f (List.mem_append_left _ hf)⟩
    have hkey : (file.entry sha256).key = file.key := by
      simp only [OverlayEntry.key, PersistedBuffer.entry, PersistedBuffer.key, h.session file hmem]
    have hload : loadPersistedBuffers sha256 (disk ++ [file]) =
        KeyedMap.put OverlayEntry.key (file.entry sha256) (loadPersistedBuffers sha256 disk) := by
      unfold loadPersistedBuffers
      rw [List.foldl_append]
      simp [h.accepted file hmem]
    rw [hload, KeyedMap.lookup_put, KeyedMap.lookup_concat, hkey, ih hinit]
    by_cases hk : file.key = k
    · have hnone : lookup PersistedBuffer.key k disk = none := by
        refine lookup_eq_none_iff.mpr fun f hf heq => ?_
        exact hkeys.2.2 f.key (List.mem_map_of_mem hf) file.key (by simp) (heq.trans hk.symm)
      simp [hk, hnone]
    · simp [hk]

theorem BufferSystem.loaded_agree {sha256 : String → String} {disk : List PersistedBuffer}
    (h : PersistedFiles sha256 disk) : (BufferSystem.loaded sha256 disk).store.Agree := by
  intro k
  have hget : (BufferSystem.loaded sha256 disk).store.get k =
      ((BufferSystem.loaded sha256 disk).store.file k).map (PersistedBuffer.entry sha256) :=
    get_loadPersistedBuffers h k
  rw [hget, Option.map_map]
  cases hfile : (BufferSystem.loaded sha256 disk).store.file k with
  | none => rfl
  | some file =>
    have hmem : file ∈ disk := lookup_mem hfile
    simp [PersistedBuffer.entry, h.hash file hmem]

/-! ## 5. The files a process leaves -/

theorem normalizeSession_normalizeSession (sessionId : Option String) :
    normalizeSession (some (normalizeSession sessionId)) = normalizeSession sessionId := by
  have hdefault : trim "default" = "default" := by decide
  unfold normalizeSession
  by_cases h : trim (sessionId.getD "") = ""
  · simp [h, hdefault, defaultSession]
  · simp [h, trim_trim]

/-- A stored push leaves a file that is accepted when it is loaded. -/
theorem PersistedFiles.persistEntry {sha256 : String → String} {disk : List PersistedBuffer}
    (h : PersistedFiles sha256 disk) {push : PendingPush} (hpush : push.Sound)
    (parse : BufferParse) (updatedAt : String) :
    PersistedFiles sha256 (KeyedMap.put PersistedBuffer.key
      (makeEntry sha256 push.params parse updatedAt).persisted disk) where
  nodup := KeyedMap.nodup_put h.nodup
  accepted := by
    intro file hf
    rcases KeyedMap.mem_put hf with rfl | hf
    · simp [PersistedBuffer.isAccepted, OverlayEntry.persisted, makeEntry, hpush.path, hpush.size]
    · exact h.accepted file hf
  hash := by
    intro file hf
    rcases KeyedMap.mem_put hf with rfl | hf
    · rfl
    · exact h.hash file hf
  session := by
    intro file hf
    rcases KeyedMap.mem_put hf with rfl | hf
    · exact normalizeSession_normalizeSession _
    · exact h.session file hf

theorem PersistedFiles.step {sha256 : String → String} {s : BufferSystem}
    (h : PersistedFiles sha256 s.store.disk) (hw : s.Waiting) (op : BufferOp) :
    PersistedFiles sha256 (bufferStep sha256 s op).store.disk := by
  rcases bufferStep_cases sha256 s op with
    ⟨_, heq, -⟩ | ⟨call, push, parse, updatedAt, entry, -, hcall, rfl, heq⟩ |
    ⟨_, push, _, _, entry, -, -, -, heq⟩ | ⟨params, _, _, -, -, -, heq⟩
  · rw [heq]
    exact h
  · rw [heq]
    exact h.persistEntry (hw call push hcall) parse updatedAt
  · rw [heq]
    cases hfound : push.existing with
    | none => exact h
    | some found => exact h
  · rw [heq]
    exact ⟨KeyedMap.nodup_remove h.nodup, fun file hf => h.accepted file (KeyedMap.mem_remove hf),
      fun file hf => h.hash file (KeyedMap.mem_remove hf),
      fun file hf => h.session file (KeyedMap.mem_remove hf)⟩

/-- **What a process leaves on disk the next one can start from.** -/
theorem persistedFiles_run {sha256 : String → String} {disk : List PersistedBuffer}
    (h : PersistedFiles sha256 disk) (ops : List BufferOp) :
    PersistedFiles sha256
      (Runs.run (bufferStep sha256) (.loaded sha256 disk) ops).store.disk := by
  have hstep : ∀ s op, (BufferSystem.Waiting s ∧ PersistedFiles sha256 s.store.disk) →
      (bufferStep sha256 s op).Waiting ∧
        PersistedFiles sha256 (bufferStep sha256 s op).store.disk :=
    fun _ op hs => ⟨hs.1.step op, hs.2.step hs.1 op⟩
  have hstart : (BufferSystem.loaded sha256 disk).Waiting := by
    simp [BufferSystem.Waiting, BufferSystem.loaded]
  have hrun : (Runs.run (bufferStep sha256) (.loaded sha256 disk) ops).Waiting ∧
      PersistedFiles sha256
        (Runs.run (bufferStep sha256) (.loaded sha256 disk) ops).store.disk :=
    Runs.run_invariant_of_forall hstep ⟨hstart, h⟩
  exact hrun.2

/-- The files after a number of processes, each stopped after some steps. -/
def diskAfter (sha256 : String → String) (processes : List (List BufferOp)) :
    List PersistedBuffer :=
  processes.foldl (fun disk ops =>
    (Runs.run (bufferStep sha256) (.loaded sha256 disk) ops).store.disk) []

end PosseClient
