/-
# Chains of commands

Commands joined by `;`, `&&`, `||` and `|`, the shell's evaluation of a chain from the left, and
chains without some commands that always succeed.

* `runChain`: the commands that run, and the exit status.
* `withoutRemoved`: the chain of the other commands, each with the join on its left.
* `RemovalSafe`: where the joins of the removed commands make no difference.
* `removal_preserves_iff`: exactly there, for all exit statuses, the others run as before.
-/
import Mathlib

namespace PosseClient.Chains

/-! ## 1. Chains -/

inductive Join
  | seq
  | and
  | or
  | pipe
  deriving DecidableEq, Repr

/-- A command, and what joins it to the one before. -/
structure Link (α : Type*) where
  join : Join
  command : α
  deriving Repr

/-- The exit status so far, and whether the current pipeline runs. -/
structure ChainState where
  status : ℕ
  active : Bool
  deriving DecidableEq, Repr

/-- Whether the command after a join runs; all commands of a pipeline run together. -/
def ChainState.admits (σ : ChainState) : Join → Bool
  | .seq => true
  | .and => decide (σ.status = 0)
  | .or => decide (σ.status ≠ 0)
  | .pipe => σ.active

/-- A command with an exit status, after a join; the status of a pipeline is that of its last. -/
def ChainState.next (σ : ChainState) (join : Join) (outcome : ℕ) : ChainState :=
  if σ.admits join then ⟨outcome, true⟩ else ⟨σ.status, false⟩

variable {α : Type*}

/-- The commands that run, in order, and the exit status. -/
def runChain (outcome : α → ℕ) : ChainState → List (Link α) → List α × ℕ
  | σ, [] => ([], σ.status)
  | σ, link :: rest =>
    let after := runChain outcome (σ.next link.join (outcome link.command)) rest
    (if σ.admits link.join then link.command :: after.1 else after.1, after.2)

/-- Where a chain begins. -/
def ChainState.start : ChainState := ⟨0, true⟩

/-- The first command of a chain is joined to nothing. -/
def headSeq : List (Link α) → List (Link α)
  | [] => []
  | link :: rest => { link with join := .seq } :: rest

variable (removed : α → Bool)

/-- The links that stay. -/
def keptLinks (links : List (Link α)) : List (Link α) :=
  links.filter fun link => !removed link.command

/-- The chain of the commands that stay, each with the join on its left. -/
def withoutRemoved (links : List (Link α)) : List (Link α) := headSeq (keptLinks removed links)

/-- **The meaning is preserved**: whatever the exit statuses, where the removed commands succeed the
others run as before, with the same status in the end. -/
def RemovalPreserves (links : List (Link α)) : Prop :=
  ∀ outcome : α → ℕ, (∀ command, removed command = true → outcome command = 0) →
    ((runChain outcome .start links).1.filter (fun command => !removed command),
      (runChain outcome .start links).2) = runChain outcome .start (withoutRemoved removed links)

/-! ## 2. Where removed commands make no difference -/

/-- The joins keep the status: `&&`, and then no join but `&&` and `|`. -/
def KeepsStatus : List Join → Prop
  | [] => True
  | join :: rest => join = .and ∧ ∀ j ∈ rest, j = .and ∨ j = .pipe

/-- The joins of removed commands do not matter to the pipeline that goes on after them: all are
pipes, or the last that is none is `;` after a pipeline that always runs, or `&&` where the joins
before it do away with a failure, and only with one of a pipeline that ran. -/
def KeepsPipe (head : Join) (group : List Join) : Prop :=
  (∀ j ∈ group, j = .pipe) ∨
    ∃ before join after, group = before ++ join :: after ∧ (∀ j ∈ after, j = .pipe) ∧
      (join = .seq ∧ head ≠ .and ∧ head ≠ .or ∨
        join = .and ∧ ¬KeepsStatus before ∧ head ≠ .or ∧
          (head = .and → ∀ j ∈ before, j = .and ∨ j = .pipe))

/-- The joins of a group of removed commands make no difference to the command after them; `head`
joins the pipeline before the group. -/
def GroupSafe (head : Join) (group : List Join) : Join → Prop
  | .seq => True
  | .and => KeepsStatus group
  | .or => KeepsStatus group
  | .pipe => KeepsPipe head group

/-- The join of the pipeline that a command stands in. -/
def pipelineHead (head : Join) : Join → Join
  | .pipe => head
  | join => join

/-- The groups after a command that stays make no difference. -/
def SafeAfter : Join → List Join → List (Link α) → Prop
  | _, group, [] => KeepsStatus group
  | head, group, link :: rest =>
    if removed link.command then SafeAfter head (group ++ [link.join]) rest
    else GroupSafe head group link.join ∧ SafeAfter (pipelineHead head link.join) [] rest

/-- **The removed commands make no difference**: those at the start leave a success, after which the
first command that stays runs, and those after it as `SafeAfter` says. -/
def RemovalSafe : Bool → List (Link α) → Prop
  | _, [] => True
  | active, link :: rest =>
    if removed link.command then RemovalSafe (ChainState.admits ⟨0, active⟩ link.join) rest
    else ChainState.admits ⟨0, active⟩ link.join = true ∧ SafeAfter removed .seq [] rest

/-! ## 3. Groups -/

/-- What a group of commands that succeed does. -/
def afterGroup (σ : ChainState) (group : List Join) : ChainState :=
  group.foldl (fun σ join => σ.next join 0) σ

section Groups

variable {σ : ChainState} {group : List Join}

theorem next_status_zero (h : σ.status = 0) (join : Join) : (σ.next join 0).status = 0 := by
  unfold ChainState.next
  split
  · rfl
  · exact h

theorem afterGroup_status_zero (h : σ.status = 0) (group : List Join) :
    (afterGroup σ group).status = 0 := by
  induction group generalizing σ with
  | nil => exact h
  | cons join group ih => exact ih (next_status_zero h join)

/-- A pipeline that is skipped stays so for pipes, and for `&&` after a failure. -/
theorem afterGroup_skipped {status : ℕ}
    (hgroup : ∀ j ∈ group, j = .pipe ∨ j = .and ∧ status ≠ 0) :
    afterGroup ⟨status, false⟩ group = ⟨status, false⟩ := by
  induction group with
  | nil => rfl
  | cons join group ih =>
    have hsame : ChainState.next ⟨status, false⟩ join 0 = ⟨status, false⟩ := by
      rcases hgroup join List.mem_cons_self with rfl | ⟨rfl, hstatus⟩
      · rfl
      · simp [ChainState.next, ChainState.admits, hstatus]
    change afterGroup (ChainState.next ⟨status, false⟩ join 0) group = ⟨status, false⟩
    rw [hsame]
    exact ih fun j hj => hgroup j (List.mem_cons_of_mem join hj)

/-- After `;` or `||` a failure is gone. -/
theorem afterGroup_recovers (h : ¬∀ j ∈ group, j = .and ∨ j = .pipe) (σ : ChainState) :
    (afterGroup σ group).status = 0 := by
  induction group generalizing σ with
  | nil => simp at h
  | cons join group ih =>
    change (afterGroup (σ.next join 0) group).status = 0
    by_cases hjoin : join = .and ∨ join = .pipe
    · refine ih (fun hall => h ?_) _
      intro j hj
      rcases List.mem_cons.mp hj with rfl | hj
      · exact hjoin
      · exact hall j hj
    · refine afterGroup_status_zero ?_ group
      cases join with
      | seq => rfl
      | and => simp at hjoin
      | or =>
        by_cases hstatus : σ.status = 0
        · simp [ChainState.next, ChainState.admits, hstatus]
        · simp [ChainState.next, ChainState.admits, hstatus]
      | pipe => simp at hjoin

theorem afterGroup_keeps (h : KeepsStatus group) (σ : ChainState) :
    (afterGroup σ group).status = σ.status := by
  by_cases hstatus : σ.status = 0
  · rw [afterGroup_status_zero hstatus, hstatus]
  cases group with
  | nil => rfl
  | cons join group =>
    obtain ⟨rfl, hgroup⟩ := h
    have hnext : σ.next .and 0 = ⟨σ.status, false⟩ := by
      simp [ChainState.next, ChainState.admits, hstatus]
    change (afterGroup (σ.next .and 0) group).status = σ.status
    rw [hnext, afterGroup_skipped fun j hj => (hgroup j hj).symm.imp_right fun h => ⟨h, hstatus⟩]

/-- Where the status is not kept, the failure of a pipeline that ran is gone. -/
theorem afterGroup_not_keeps (h : ¬KeepsStatus group) (hactive : σ.active = true) :
    (afterGroup σ group).status = 0 := by
  cases group with
  | nil => exact absurd trivial h
  | cons join group =>
    by_cases hgroup : ∀ j ∈ join :: group, j = .and ∨ j = .pipe
    · have hjoin : join = .pipe := by
        rcases hgroup join List.mem_cons_self with rfl | hpipe
        · exact absurd ⟨rfl, fun j hj => hgroup j (List.mem_cons_of_mem _ hj)⟩ h
        · exact hpipe
      change (afterGroup (σ.next join 0) group).status = 0
      refine afterGroup_status_zero ?_ group
      rw [hjoin]
      simp [ChainState.next, ChainState.admits, hactive]
    · exact afterGroup_recovers hgroup σ

/-- Pipes leave the pipeline running or not. -/
theorem afterGroup_pipes (h : ∀ j ∈ group, j = .pipe) (σ : ChainState) :
    (afterGroup σ group).active = σ.active := by
  induction group generalizing σ with
  | nil => rfl
  | cons join group ih =>
    change (afterGroup (σ.next join 0) group).active = σ.active
    rw [ih fun j hj => h j (List.mem_cons_of_mem join hj), h join List.mem_cons_self]
    cases hactive : σ.active with
    | true => simp [ChainState.next, ChainState.admits, hactive]
    | false => simp [ChainState.next, ChainState.admits, hactive]

end Groups

/-! ## 4. The next command -/

/-- The states after a command of a pipeline with a head: it ran, or the head skipped it. -/
def Possible (head : Join) (σ : ChainState) : Prop :=
  σ.active = true ∨ head = .and ∧ σ.status ≠ 0 ∨ head = .or ∧ σ.status = 0

section Next

variable {head : Join} {group : List Join}

theorem afterGroup_append (σ : ChainState) (before after : List Join) :
    afterGroup σ (before ++ after) = afterGroup (afterGroup σ before) after := List.foldl_append

/-- What a pipeline does that goes on after a group. -/
theorem afterGroup_active (σ : ChainState) (before : List Join) (join : Join) {after : List Join}
    (hafter : ∀ j ∈ after, j = .pipe) :
    (afterGroup σ (before ++ join :: after)).active = (afterGroup σ before).admits join := by
  have hnext : ((afterGroup σ before).next join 0).active = (afterGroup σ before).admits join := by
    unfold ChainState.next
    split
    case isTrue h => exact h.symm
    case isFalse h => exact (Bool.eq_false_iff.mpr h).symm
  rw [← hnext, afterGroup_append]
  exact afterGroup_pipes hafter _

/-- **A safe group** leaves to the next join what it asks for, and the status where that says no. -/
theorem GroupSafe.admits {join : Join} (h : GroupSafe head group join) {σ : ChainState}
    (hσ : Possible head σ) :
    (afterGroup σ group).admits join = σ.admits join ∧
      (σ.admits join = false → (afterGroup σ group).status = σ.status) := by
  cases join with
  | seq => exact ⟨rfl, fun hno => by cases hno⟩
  | and =>
    have hkeeps := afterGroup_keeps h σ
    exact ⟨by simp only [ChainState.admits, hkeeps], fun _ => hkeeps⟩
  | or =>
    have hkeeps := afterGroup_keeps h σ
    exact ⟨by simp only [ChainState.admits, hkeeps], fun _ => hkeeps⟩
  | pipe =>
    rcases h with hpipes | ⟨before, join, after, rfl, hafter, hcases⟩
    · refine ⟨afterGroup_pipes hpipes σ, fun hno => ?_⟩
      have hstate : σ = ⟨σ.status, false⟩ := by rw [← show σ.active = false from hno]
      rw [hstate, afterGroup_skipped fun j hj => Or.inl (hpipes j hj)]
    · have hactive := afterGroup_active σ before join hafter
      rcases hcases with ⟨rfl, hand, hor⟩ | ⟨rfl, hkeeps, hor, hbefore⟩
      · have hruns : σ.active = true := by
          rcases hσ with h | ⟨h, _⟩ | ⟨h, _⟩
          · exact h
          · exact absurd h hand
          · exact absurd h hor
        refine ⟨hactive.trans hruns.symm, fun hno => ?_⟩
        rw [show σ.active = false from hno] at hruns
        cases hruns
      · rcases hσ with hruns | ⟨hhead, hstatus⟩ | ⟨hhead, _⟩
        · have hzero := afterGroup_not_keeps hkeeps hruns
          refine ⟨hactive.trans ?_, fun hno => ?_⟩
          · simp [ChainState.admits, hzero, hruns]
          · rw [show σ.active = false from hno] at hruns
            cases hruns
        · cases hruns : σ.active with
          | true =>
            have hzero := afterGroup_not_keeps hkeeps hruns
            refine ⟨hactive.trans ?_, fun hno => ?_⟩
            · simp [ChainState.admits, hzero, hruns]
            · rw [show σ.active = false from hno] at hruns
              cases hruns
          | false =>
            have hstate : σ = ⟨σ.status, false⟩ := by rw [← hruns]
            have hsame : afterGroup σ (before ++ .and :: after) = σ := by
              rw [hstate]
              refine afterGroup_skipped fun j hj => ?_
              rcases List.mem_append.mp hj with hj | hj
              · exact (hbefore hhead j hj).symm.imp_right fun h => ⟨h, hstatus⟩
              · rcases List.mem_cons.mp hj with rfl | hj
                · exact Or.inr ⟨rfl, hstatus⟩
                · exact Or.inl (hafter j hj)
            rw [hsame]
            exact ⟨rfl, fun _ => rfl⟩
        · exact absurd hhead hor

/-- The last join of a group that is no pipe. -/
theorem exists_last_not_pipe (h : ¬∀ j ∈ group, j = .pipe) :
    ∃ before join after, group = before ++ join :: after ∧ join ≠ .pipe ∧
      ∀ j ∈ after, j = .pipe := by
  induction group with
  | nil => simp at h
  | cons join group ih =>
    by_cases hgroup : ∀ j ∈ group, j = .pipe
    · refine ⟨[], join, group, rfl, fun hjoin => h ?_, hgroup⟩
      intro j hj
      rcases List.mem_cons.mp hj with rfl | hj
      · exact hjoin
      · exact hgroup j hj
    · obtain ⟨before, last, after, rfl, hlast, hafter⟩ := ih hgroup
      exact ⟨join :: before, last, after, rfl, hlast, hafter⟩

/-- **A group that is not safe** changes what the next join asks for, for some state. -/
theorem exists_admits_ne {join : Join} (h : ¬GroupSafe head group join) :
    ∃ σ, Possible head σ ∧ (afterGroup σ group).admits join ≠ σ.admits join := by
  cases join with
  | seq => exact absurd trivial h
  | and =>
    have hzero := @afterGroup_not_keeps ⟨1, true⟩ _ h rfl
    exact ⟨⟨1, true⟩, Or.inl rfl, by simp [ChainState.admits, hzero]⟩
  | or =>
    have hzero := @afterGroup_not_keeps ⟨1, true⟩ _ h rfl
    exact ⟨⟨1, true⟩, Or.inl rfl, by simp [ChainState.admits, hzero]⟩
  | pipe =>
    obtain ⟨before, join, after, rfl, hjoin, hafter⟩ :=
      exists_last_not_pipe fun hpipes => h (Or.inl hpipes)
    have hactive := fun σ => afterGroup_active σ before join hafter
    have hcases : ¬(join = .seq ∧ head ≠ .and ∧ head ≠ .or ∨
        join = .and ∧ ¬KeepsStatus before ∧ head ≠ .or ∧
          (head = .and → ∀ j ∈ before, j = .and ∨ j = .pipe)) :=
      fun hcases => h (Or.inr ⟨before, join, after, rfl, hafter, hcases⟩)
    change ∃ σ, Possible head σ ∧ (afterGroup σ (before ++ join :: after)).active ≠ σ.active
    simp only [hactive]
    cases join with
    | pipe => exact absurd rfl hjoin
    | seq =>
      by_cases hand : head = .and
      · exact ⟨⟨1, false⟩, Or.inr (Or.inl ⟨hand, by simp⟩), by simp [ChainState.admits]⟩
      · have hor : head = .or := by
          by_contra hor
          exact hcases (Or.inl ⟨rfl, hand, hor⟩)
        exact ⟨⟨0, false⟩, Or.inr (Or.inr ⟨hor, rfl⟩), by simp [ChainState.admits]⟩
    | and =>
      by_cases hkeeps : KeepsStatus before
      · have hone := afterGroup_keeps hkeeps ⟨1, true⟩
        exact ⟨⟨1, true⟩, Or.inl rfl, by simp [ChainState.admits, hone]⟩
      by_cases hor : head = .or
      · have hzero := @afterGroup_status_zero ⟨0, false⟩ rfl before
        exact ⟨⟨0, false⟩, Or.inr (Or.inr ⟨hor, rfl⟩), by simp [ChainState.admits, hzero]⟩
      · have hrest : ¬(head = .and → ∀ j ∈ before, j = .and ∨ j = .pipe) :=
          fun hrest => hcases (Or.inr ⟨rfl, hkeeps, hor, hrest⟩)
        rw [Classical.not_imp] at hrest
        have hzero := afterGroup_recovers hrest.2 ⟨1, false⟩
        exact ⟨⟨1, false⟩, Or.inr (Or.inl ⟨hrest.1, by simp⟩), by simp [ChainState.admits, hzero]⟩
    | or =>
      have hzero := @afterGroup_status_zero ⟨0, true⟩ rfl before
      exact ⟨⟨0, true⟩, Or.inl rfl, by simp [ChainState.admits, hzero]⟩

end Next

/-! ## 5. Chains without the removed commands -/

section Removal

variable {removed}
variable {links : List (Link α)}

theorem runChain_congr {outcome outcome' : α → ℕ} (σ : ChainState)
    (h : ∀ link ∈ links, outcome link.command = outcome' link.command) :
    runChain outcome σ links = runChain outcome' σ links := by
  induction links generalizing σ with
  | nil => rfl
  | cons link rest ih =>
    rw [runChain, runChain, h link List.mem_cons_self,
      ih _ fun l hl => h l (List.mem_cons_of_mem link hl)]

/-- Commands under other names run alike. -/
theorem runChain_map {β : Type*} (f : β → α) (outcome : α → ℕ) (σ : ChainState)
    (links : List (Link β)) :
    runChain outcome σ (links.map fun link => ⟨link.join, f link.command⟩) =
      ((runChain (fun command => outcome (f command)) σ links).1.map f,
        (runChain (fun command => outcome (f command)) σ links).2) := by
  induction links generalizing σ with
  | nil => rfl
  | cons link rest ih =>
    rw [List.map_cons, runChain, runChain, ih]
    dsimp only
    split <;> rfl

theorem runChain_subset (outcome : α → ℕ) (σ : ChainState) {command : α}
    (h : command ∈ (runChain outcome σ links).1) : command ∈ links.map Link.command := by
  induction links generalizing σ with
  | nil => simp [runChain] at h
  | cons link rest ih =>
    rw [List.map_cons, List.mem_cons]
    rw [runChain] at h
    dsimp only at h
    split at h
    · rcases List.mem_cons.mp h with h | h
      · exact Or.inl h
      · exact Or.inr (ih _ h)
    · exact Or.inr (ih _ h)

/-- The links that stay run from one state as all of them from another. -/
def SameFrom (removed : α → Bool) (σ' σ : ChainState) (links : List (Link α)) : Prop :=
  ∀ outcome : α → ℕ, (∀ command, removed command = true → outcome command = 0) →
    ((runChain outcome σ' links).1.filter (fun command => !removed command),
      (runChain outcome σ' links).2) = runChain outcome σ (keptLinks removed links)

theorem sameFrom_nil (σ' σ : ChainState) :
    SameFrom removed σ' σ ([] : List (Link α)) ↔ σ'.status = σ.status := by
  constructor
  · intro h
    exact congrArg Prod.snd (h (fun _ => 0) fun _ _ => rfl)
  · intro h outcome _
    exact Prod.ext rfl h

theorem sameFrom_removed {σ' σ : ChainState} {link : Link α} {rest : List (Link α)}
    (hlink : removed link.command = true) :
    SameFrom removed σ' σ (link :: rest) ↔ SameFrom removed (σ'.next link.join 0) σ rest := by
  have hkept : keptLinks removed (link :: rest) = keptLinks removed rest := by
    simp [keptLinks, hlink]
  unfold SameFrom
  rw [hkept]
  refine forall_congr' fun outcome => forall_congr' fun houtcome => ?_
  rw [runChain, houtcome _ hlink]
  dsimp only
  split
  · rw [List.filter_cons_of_neg (by simp [hlink])]
  · rfl

/-- A command that stays: both chains run it or neither does, and they agree from there on, whatever
its exit status. -/
theorem same_kept_iff {σ' σ : ChainState} {link : Link α} {rest : List (Link α)} (join : Join)
    (hlink : removed link.command = false) (hfresh : link.command ∉ rest.map Link.command) :
    (∀ outcome : α → ℕ, (∀ command, removed command = true → outcome command = 0) →
      ((runChain outcome σ' (link :: rest)).1.filter (fun command => !removed command),
        (runChain outcome σ' (link :: rest)).2) =
          runChain outcome σ (⟨join, link.command⟩ :: keptLinks removed rest)) ↔
    σ'.admits link.join = σ.admits join ∧
      ∀ n, SameFrom removed (σ'.next link.join n) (σ.next join n) rest := by
  have hnot : ∀ outcome σ, link.command ∉
      (runChain outcome σ rest).1.filter (fun command => !removed command) := by
    intro outcome σ hmem
    exact hfresh (runChain_subset outcome σ (List.mem_filter.mp hmem).1)
  have hnot' : ∀ outcome σ, link.command ∉ (runChain outcome σ (keptLinks removed rest)).1 := by
    intro outcome σ hmem
    have hkept := runChain_subset outcome σ hmem
    exact hfresh (List.map_subset Link.command List.filter_sublist.subset hkept)
  constructor
  · intro h
    have hallows : σ'.admits link.join = σ.admits join := by
      have hzero := congrArg Prod.fst (h (fun _ => 0) fun _ _ => rfl)
      rw [runChain, runChain] at hzero
      dsimp only at hzero
      cases hallows' : σ'.admits link.join with
      | true =>
        cases hallows : σ.admits join with
        | true => rfl
        | false =>
          rw [hallows', hallows, if_pos rfl, if_neg Bool.false_ne_true,
            List.filter_cons_of_pos (by simp [hlink])] at hzero
          exact absurd (hzero ▸ List.mem_cons_self) (hnot' _ _)
      | false =>
        cases hallows : σ.admits join with
        | true =>
          rw [hallows', hallows, if_pos rfl, if_neg Bool.false_ne_true] at hzero
          exact absurd (hzero ▸ List.mem_cons_self) (hnot _ _)
        | false => rfl
    refine ⟨hallows, fun n outcome houtcome => ?_⟩
    classical
    -- the exit status of the command itself is free
    have hupdate := h (Function.update outcome link.command n) (by
      intro command hcommand
      rw [Function.update_of_ne]
      · exact houtcome command hcommand
      · rintro rfl
        rw [hlink] at hcommand
        cases hcommand)
    have hsame : ∀ links : List (Link α), link.command ∉ links.map Link.command → ∀ σ,
        runChain (Function.update outcome link.command n) σ links = runChain outcome σ links := by
      intro links hlinks σ
      refine runChain_congr σ fun other hother => Function.update_of_ne ?_ _ _
      intro heq
      exact hlinks (heq ▸ List.mem_map_of_mem hother)
    have hkept := hsame (keptLinks removed rest) fun hmem =>
      hfresh (List.map_subset Link.command List.filter_sublist.subset hmem)
    rw [runChain, runChain] at hupdate
    dsimp only at hupdate
    rw [Function.update_self, hsame rest hfresh, hkept, hallows] at hupdate
    cases hallow : σ.admits join with
    | true =>
      rw [hallow, if_pos rfl, if_pos rfl, List.filter_cons_of_pos (by simp [hlink]),
        Prod.mk.injEq, List.cons.injEq] at hupdate
      exact Prod.ext hupdate.1.2 hupdate.2
    | false =>
      rw [hallow, if_neg Bool.false_ne_true, if_neg Bool.false_ne_true] at hupdate
      exact hupdate
  · rintro ⟨hallows, hrest⟩ outcome houtcome
    have hafter := hrest (outcome link.command) outcome houtcome
    rw [runChain, runChain, ← hafter, hallows]
    dsimp only
    split
    · rw [List.filter_cons_of_pos (by simp [hlink])]
    · rfl

/-- A state after a command is one of the states that its pipeline leaves. -/
theorem possible_next {head : Join} {σ : ChainState} (hσ : Possible head σ) (join : Join) (n : ℕ) :
    Possible (pipelineHead head join) (σ.next join n) := by
  unfold ChainState.next
  split
  · exact Or.inl rfl
  case isFalse hno =>
    cases join with
    | seq => exact absurd rfl hno
    | and => exact Or.inr (Or.inl ⟨rfl, by simpa [ChainState.admits] using hno⟩)
    | or => exact Or.inr (Or.inr ⟨rfl, by simpa [ChainState.admits] using hno⟩)
    | pipe =>
      rcases hσ with hruns | hskipped
      · exact absurd hruns hno
      · exact Or.inr hskipped

/-- Each of the states that a pipeline leaves is there after some state and exit status. -/
theorem exists_next {head join : Join} {τ : ChainState}
    (hτ : Possible (pipelineHead head join) τ) :
    ∃ σ n, Possible head σ ∧ σ.next join n = τ := by
  obtain ⟨status, active⟩ := τ
  cases active with
  | true =>
    cases join with
    | seq => exact ⟨⟨0, true⟩, status, Or.inl rfl, rfl⟩
    | and => exact ⟨⟨0, true⟩, status, Or.inl rfl, rfl⟩
    | or => exact ⟨⟨1, true⟩, status, Or.inl rfl, rfl⟩
    | pipe => exact ⟨⟨0, true⟩, status, Or.inl rfl, rfl⟩
  | false =>
    cases join with
    | seq => simp [Possible, pipelineHead] at hτ
    | and =>
      have hstatus : status ≠ 0 := by simpa [Possible, pipelineHead] using hτ
      exact ⟨⟨status, true⟩, 0, Or.inl rfl, by simp [ChainState.next, ChainState.admits, hstatus]⟩
    | or =>
      have hstatus : status = 0 := by simpa [Possible, pipelineHead] using hτ
      exact ⟨⟨status, true⟩, 0, Or.inl rfl, by simp [ChainState.next, ChainState.admits, hstatus]⟩
    | pipe => exact ⟨⟨status, false⟩, 0, hτ, rfl⟩

/-- **The groups after a command that stays.** -/
theorem safeAfter_iff {head : Join} {group : List Join} (hnodup : (links.map Link.command).Nodup) :
    SafeAfter removed head group links ↔
      ∀ σ, Possible head σ → SameFrom removed (afterGroup σ group) σ links := by
  induction links generalizing head group with
  | nil =>
    rw [SafeAfter]
    constructor
    · exact fun h σ _ => (sameFrom_nil _ _).mpr (afterGroup_keeps h σ)
    · intro h
      by_contra hkeeps
      have hone := (sameFrom_nil _ _).mp (h ⟨1, true⟩ (Or.inl rfl))
      rw [afterGroup_not_keeps hkeeps rfl] at hone
      cases hone
  | cons link rest ih =>
    rw [List.map_cons, List.nodup_cons] at hnodup
    rw [SafeAfter]
    split
    case isTrue hlink =>
      rw [ih hnodup.2]
      refine forall_congr' fun σ => forall_congr' fun _ => ?_
      rw [sameFrom_removed hlink, afterGroup_append]
      rfl
    case isFalse hlink =>
      have hlink : removed link.command = false := Bool.eq_false_iff.mpr hlink
      have hkept : keptLinks removed (link :: rest) =
          ⟨link.join, link.command⟩ :: keptLinks removed rest := by
        simp [keptLinks, hlink]
      have hiff : ∀ σ, SameFrom removed (afterGroup σ group) σ (link :: rest) ↔
          (afterGroup σ group).admits link.join = σ.admits link.join ∧
            ∀ n, SameFrom removed ((afterGroup σ group).next link.join n)
              (σ.next link.join n) rest := by
        intro σ
        unfold SameFrom
        rw [hkept]
        exact same_kept_iff link.join hlink hnodup.1
      simp only [hiff]
      have hnext : GroupSafe head group link.join → ∀ σ, Possible head σ → ∀ n,
          (afterGroup σ group).next link.join n = σ.next link.join n := by
        intro hsafe σ hσ n
        obtain ⟨hallows, hstatus⟩ := hsafe.admits hσ
        unfold ChainState.next
        rw [hallows]
        split
        · rfl
        case isFalse hno => rw [hstatus (Bool.eq_false_iff.mpr hno)]
      constructor
      · rintro ⟨hsafe, hrest⟩ σ hσ
        refine ⟨(hsafe.admits hσ).1, fun n => ?_⟩
        rw [hnext hsafe σ hσ n]
        exact (ih hnodup.2).mp hrest _ (possible_next hσ link.join n)
      · intro h
        have hsafe : GroupSafe head group link.join := by
          by_contra hnot
          obtain ⟨σ, hσ, hne⟩ := exists_admits_ne hnot
          exact hne (h σ hσ).1
        refine ⟨hsafe, (ih hnodup.2).mpr fun τ hτ => ?_⟩
        obtain ⟨σ, n, hσ, rfl⟩ := exists_next hτ
        have hsame := (h σ hσ).2 n
        rwa [hnext hsafe σ hσ n] at hsame

theorem removalSafe_iff (hnodup : (links.map Link.command).Nodup) (active : Bool) :
    RemovalSafe removed active links ↔
      ∀ outcome : α → ℕ, (∀ command, removed command = true → outcome command = 0) →
        ((runChain outcome ⟨0, active⟩ links).1.filter (fun command => !removed command),
          (runChain outcome ⟨0, active⟩ links).2) =
            runChain outcome .start (withoutRemoved removed links) := by
  induction links generalizing active with
  | nil =>
    rw [RemovalSafe]
    exact ⟨fun _ _ _ => rfl, fun _ => trivial⟩
  | cons link rest ih =>
    rw [List.map_cons, List.nodup_cons] at hnodup
    rw [RemovalSafe]
    split
    case isTrue hlink =>
      have hkept : withoutRemoved removed (link :: rest) = withoutRemoved removed rest := by
        simp [withoutRemoved, keptLinks, hlink]
      rw [ih hnodup.2, hkept]
      refine forall_congr' fun outcome => forall_congr' fun houtcome => ?_
      have hnext : ChainState.next ⟨0, active⟩ link.join 0 =
          ⟨0, ChainState.admits ⟨0, active⟩ link.join⟩ := by
        unfold ChainState.next
        split
        case isTrue h => rw [h]
        case isFalse h => rw [Bool.eq_false_iff.mpr h]
      rw [runChain, houtcome _ hlink, hnext]
      dsimp only
      split
      · rw [List.filter_cons_of_neg (by simp [hlink])]
      · rfl
    case isFalse hlink =>
      have hlink : removed link.command = false := Bool.eq_false_iff.mpr hlink
      have hkept : withoutRemoved removed (link :: rest) =
          ⟨.seq, link.command⟩ :: keptLinks removed rest := by
        simp [withoutRemoved, keptLinks, headSeq, hlink]
      rw [hkept, same_kept_iff .seq hlink hnodup.1, safeAfter_iff hnodup.2]
      refine and_congr_right fun hallows => ?_
      have hnext : ∀ n, ChainState.next ⟨0, active⟩ link.join n = ⟨n, true⟩ := by
        intro n
        unfold ChainState.next
        rw [if_pos hallows]
      constructor
      · intro h n
        rw [hnext]
        exact h ⟨n, true⟩ (Or.inl rfl)
      · rintro h ⟨status, active⟩ hσ
        have hactive : active = true := by simpa [Possible] using hσ
        have hstatus := h status
        rw [hnext] at hstatus
        rw [hactive]
        exact hstatus

/-- **Removing commands that succeed** preserves the meaning of a chain exactly where their joins
make no difference. -/
theorem removal_preserves_iff (hnodup : (links.map Link.command).Nodup) :
    RemovalPreserves removed links ↔ RemovalSafe removed true links :=
  (removalSafe_iff hnodup true).symm

end Removal

end PosseClient.Chains
