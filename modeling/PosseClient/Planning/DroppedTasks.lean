/-
# Dropped tasks of a plan

The end of the plan compiler's loop: the dependencies of the compiled jobs are wired, a refused one
drops its task, and what is dropped takes with it the tasks that share its jobs and those that wait
for it.

* `Upheld`: what edges and the drop of a refused link's task keep, the loops keep.
* `compiled_survivors`: a job that is left waits for no dropped task and no canceled job.
* `dropped_has_reason`: no task is dropped but for a refusal, a dependency or a shared job.

Outcomes of the checks against the queue are arguments, of the state in which they are made; task
titles, promote claims, job errors and events are left out.
-/
import PosseClient.Lib.Saturation
import PosseClient.Planning.PostMergeTasks

namespace PosseClient

open Saturation

variable {κ ι : Type*} [DecidableEq κ] [DecidableEq ι]

/-! ## 1. The source -/

/-- What the compiler knows of its tasks and jobs; `canceled` are the jobs dropping canceled. -/
structure CompileGraph (κ ι : Type*) where
  dropped : List ι
  jobMap : List (ι × κ)
  created : List κ
  canceled : List κ
  edges : List (κ × κ)

/-- A pending link, with the jobs that are there already. -/
structure PendingLink (κ ι : Type*) extends PlannerLink κ ι where
  dependsOnJobIds : List κ

/-- What does not change while links are wired, and the outcomes of the checks. -/
structure CompileEnv (κ ι : Type*) where
  isInteger : ι → Bool
  inRange : ι → Bool
  compiledTaskJobIds : ι → List κ
  validExistingJob : CompileGraph κ ι → κ → Bool
  accepts : CompileGraph κ ι → κ → κ → Bool

variable {env : CompileEnv κ ι} {s : CompileGraph κ ι} {link : PendingLink κ ι}

/-- `jobMap.get`. -/
def jobOf (jobMap : List (ι × κ)) (i : ι) : Option κ := (jobMap.find? (·.1 = i)).map (·.2)

/-- One entry of `jobMap` in the search for aliases: dropped indexes and their jobs. -/
def aliasTurn (compiled : ι → List κ) (found : List ι × List κ) (entry : ι × κ) :
    List ι × List κ :=
  if entry.1 ∈ found.1 ∨ entry.2 ∉ found.2 then found
  else (found.1 ++ [entry.1], found.2 ++ compiled entry.1)

/-- The `while (foundAlias)` loop. -/
def aliasLoop (compiled : ι → List κ) (jobMap : List (ι × κ)) (taskIndex : ι) :
    List ι × List κ :=
  saturate (aliasTurn compiled) (·.1.length) jobMap (jobMap.length + 1)
    ([taskIndex], compiled taskIndex ++ (jobOf jobMap taskIndex).toList)

/-- `cancelCompiledTaskForDroppedDependency`. -/
def cancelCompiledTask (env : CompileEnv κ ι) (s : CompileGraph κ ι) (taskIndex : ι) :
    CompileGraph κ ι :=
  if taskIndex ∈ s.dropped then s
  else
    let found := aliasLoop env.compiledTaskJobIds s.jobMap taskIndex
    { s with
      dropped := s.dropped ++ found.1
      jobMap := s.jobMap.filter fun entry => decide (entry.1 ∉ found.1)
      created := s.created.filter fun job => decide (job ∉ found.2)
      canceled := s.canceled ++ found.2 }

/-- The loop over the existing jobs that a link waits for; a refused one ends it. -/
def wireJobs (env : CompileEnv κ ι) (link : PendingLink κ ι) :
    List κ → CompileGraph κ ι → CompileGraph κ ι
  | [], s => s
  | job :: rest, s =>
    if env.validExistingJob s job ∧ env.accepts s link.jobId job then
      wireJobs env link rest { s with edges := s.edges ++ [(link.jobId, job)] }
    else cancelCompiledTask env s link.taskIndex

/-- `dependencyMissingReason`: there is one. -/
def missing (env : CompileEnv κ ι) (s : CompileGraph κ ι) (taskIndex i : ι) : Prop :=
  ¬ env.isInteger i ∨ ¬ env.inRange i ∨ i = taskIndex ∨ i ∈ s.dropped

instance (taskIndex i : ι) : Decidable (missing env s taskIndex i) :=
  inferInstanceAs (Decidable (_ ∨ _))

/-- The loop over the task indexes of a link. -/
def wireIndexes (env : CompileEnv κ ι) (link : PendingLink κ ι) :
    List ι → CompileGraph κ ι → CompileGraph κ ι
  | [], s => s
  | i :: rest, s =>
    match jobOf s.jobMap i with
    | none => cancelCompiledTask env s link.taskIndex
    | some target =>
      if ¬ missing env s link.taskIndex i ∧ env.accepts s link.jobId target then
        wireIndexes env link rest { s with edges := s.edges ++ [(link.jobId, target)] }
      else cancelCompiledTask env s link.taskIndex

/-- One link in `wirePlannerDependencies`. -/
def wireLink (env : CompileEnv κ ι) (s : CompileGraph κ ι) (link : PendingLink κ ι) :
    CompileGraph κ ι :=
  if link.jobId ∉ s.created then s
  else
    let s := wireJobs env link link.dependsOnJobIds s
    if link.jobId ∉ s.created then s else wireIndexes env link link.dependsOnIndexes s

/-- One link in `propagateDroppedPlannerDependencies`. -/
def propagateTurn (env : CompileEnv κ ι) (s : CompileGraph κ ι) (link : PendingLink κ ι) :
    CompileGraph κ ι :=
  if link.taskIndex ∈ s.dropped ∨ link.jobId ∉ s.created ∨
      ¬ link.dependsOnIndexes.any fun i => env.isInteger i && decide (i ∈ s.dropped) then s
  else cancelCompiledTask env s link.taskIndex

/-- `wirePlannerDependencies`, then `propagateDroppedPlannerDependencies`. -/
def completeGraph (env : CompileEnv κ ι) (links : List (PendingLink κ ι))
    (s : CompileGraph κ ι) : CompileGraph κ ι :=
  saturate (propagateTurn env) (·.dropped.length) links (links.length + 1)
    (links.foldl (wireLink env) s)

/-! ## 2. The tasks that go together -/

omit [DecidableEq κ] in
theorem jobOf_mem {jobMap : List (ι × κ)} {i : ι} {job : κ} (h : jobOf jobMap i = some job) :
    (i, job) ∈ jobMap := by
  obtain ⟨entry, hentry, rfl⟩ := Option.map_eq_some_iff.mp h
  have hkey : entry.1 = i := by simpa using List.find?_some hentry
  exact hkey ▸ List.mem_of_find?_eq_some hentry

theorem aliasTurn_marks (compiled : ι → List κ) :
    Marks (aliasTurn compiled) (fun found => found.1) Prod.fst := by
  intro found entry
  unfold aliasTurn
  split_ifs with h
  · exact Or.inl rfl
  · exact Or.inr ⟨fun hfound => h (Or.inl hfound), [entry.1], rfl, List.mem_singleton_self _⟩

/-- **The tasks that go with a task**: itself, every task that has one of the jobs, and all of
their jobs. -/
theorem aliasLoop_spec (compiled : ι → List κ) (jobMap : List (ι × κ)) (taskIndex : ι) :
    taskIndex ∈ (aliasLoop compiled jobMap taskIndex).1 ∧
      (∀ i ∈ (aliasLoop compiled jobMap taskIndex).1, ∀ job ∈ compiled i,
        job ∈ (aliasLoop compiled jobMap taskIndex).2) ∧
      ∀ entry ∈ jobMap, entry.2 ∈ (aliasLoop compiled jobMap taskIndex).2 →
        entry.1 ∈ (aliasLoop compiled jobMap taskIndex).1 := by
  have hinv := @saturate_invariant (List ι × List κ) (ι × κ) (aliasTurn compiled) (·.1.length)
    jobMap (fun found => taskIndex ∈ found.1 ∧ ∀ i ∈ found.1, ∀ job ∈ compiled i, job ∈ found.2)
    (fun found entry _ h => by
      unfold aliasTurn
      split_ifs
      · exact h
      · refine ⟨List.mem_append_left _ h.1, fun i hi job hjob => ?_⟩
        rcases List.mem_append.mp hi with hold | hnew
        · exact List.mem_append_left _ (h.2 i hold job hjob)
        · obtain rfl := List.mem_singleton.mp hnew
          exact List.mem_append_right _ hjob)
    (jobMap.length + 1) ([taskIndex], compiled taskIndex ++ (jobOf jobMap taskIndex).toList)
    ⟨List.mem_singleton_self _, by simp +contextual⟩
  refine ⟨hinv.1, hinv.2, fun entry hentry hjob => ?_⟩
  by_contra hnew
  have hfixed := saturate_marks_fixed (aliasTurn_marks compiled)
    ([taskIndex], compiled taskIndex ++ (jobOf jobMap taskIndex).toList) entry hentry
  refine absurd (congrArg (fun found => found.1.length) hfixed) ?_
  change (aliasTurn compiled (aliasLoop compiled jobMap taskIndex) entry).1.length ≠ _
  rw [aliasTurn, if_neg (not_or.mpr ⟨hnew, not_not.mpr hjob⟩)]
  simp [aliasLoop]

/-! ## 3. What dropping a task changes -/

/-- No job of a dropped task is left, and no target is of a dropped task or canceled. -/
structure CompileGraph.Settled (env : CompileEnv κ ι) (s : CompileGraph κ ι) : Prop where
  gone : ∀ i ∈ s.dropped, ∀ job ∈ env.compiledTaskJobIds i, job ∉ s.created
  unmapped : ∀ entry ∈ s.jobMap, entry.1 ∉ s.dropped ∧ entry.2 ∉ s.canceled

theorem CompileGraph.Settled.cancel (h : s.Settled env) (taskIndex : ι) :
    (cancelCompiledTask env s taskIndex).Settled env := by
  obtain ⟨-, hjobs, halias⟩ := aliasLoop_spec env.compiledTaskJobIds s.jobMap taskIndex
  unfold cancelCompiledTask
  split_ifs
  · exact h
  · constructor
    · intro i hi job hjob hleft
      obtain ⟨hcreated, hfound⟩ := List.mem_filter.mp hleft
      rcases List.mem_append.mp hi with hold | hnew
      · exact h.gone i hold job hjob hcreated
      · exact of_decide_eq_true hfound (hjobs i hnew job hjob)
    · intro entry hentry
      obtain ⟨hmap, hfound⟩ := List.mem_filter.mp hentry
      have hkey := of_decide_eq_true hfound
      exact ⟨List.not_mem_append (h.unmapped entry hmap).1 hkey,
        List.not_mem_append (h.unmapped entry hmap).2 fun hjob => hkey (halias entry hmap hjob)⟩

/-- **Dropping the task of a job** leaves the job no place among the created ones. -/
theorem CompileGraph.Settled.jobId_gone (h : s.Settled env)
    (hjob : link.jobId ∈ env.compiledTaskJobIds link.taskIndex) :
    link.jobId ∉ (cancelCompiledTask env s link.taskIndex).created := by
  unfold cancelCompiledTask
  split_ifs with hdropped
  · exact h.gone _ hdropped _ hjob
  · obtain ⟨hself, hjobs, -⟩ := aliasLoop_spec env.compiledTaskJobIds s.jobMap link.taskIndex
    intro hleft
    exact of_decide_eq_true (List.mem_filter.mp hleft).2 (hjobs _ hself _ hjob)

/-- What later steps keep: jobs only go, tasks are only dropped, edges only come, and a target
stays that of its index for as long as the index is not dropped. -/
structure CompileGraph.Below (s s' : CompileGraph κ ι) : Prop where
  created : s'.created ⊆ s.created
  dropped : s.dropped ⊆ s'.dropped
  edges : s.edges ⊆ s'.edges
  jobMap : s'.jobMap ⊆ s.jobMap
  targets : ∀ i ∉ s'.dropped, jobOf s'.jobMap i = jobOf s.jobMap i

omit [DecidableEq κ] in
theorem CompileGraph.Below.refl (s : CompileGraph κ ι) : s.Below s :=
  ⟨List.Subset.refl _, List.Subset.refl _, List.Subset.refl _, List.Subset.refl _, fun _ _ => rfl⟩

omit [DecidableEq κ] in
theorem CompileGraph.Below.trans {s s' s'' : CompileGraph κ ι} (h : s.Below s')
    (h' : s'.Below s'') : s.Below s'' :=
  ⟨List.Subset.trans h'.created h.created, List.Subset.trans h.dropped h'.dropped,
    List.Subset.trans h.edges h'.edges, List.Subset.trans h'.jobMap h.jobMap,
    fun i hi => (h'.targets i hi).trans (h.targets i fun hi' => hi (h'.dropped hi'))⟩

omit [DecidableEq κ] in
theorem below_edge (s : CompileGraph κ ι) (edge : κ × κ) :
    s.Below { s with edges := s.edges ++ [edge] } :=
  ⟨List.Subset.refl _, List.Subset.refl _, List.subset_append_left _ _, List.Subset.refl _,
    fun _ _ => rfl⟩

theorem below_cancel (s : CompileGraph κ ι) (taskIndex : ι) :
    s.Below (cancelCompiledTask env s taskIndex) := by
  unfold cancelCompiledTask
  split_ifs
  · exact .refl s
  · refine ⟨List.filter_subset_self _, List.subset_append_left _ _, List.Subset.refl _,
      List.filter_subset_self _, fun i hi => ?_⟩
    have hfound : i ∉ (aliasLoop env.compiledTaskJobIds s.jobMap taskIndex).1 :=
      fun h => hi (List.mem_append_right _ h)
    simp only [jobOf, List.find?_filter]
    congr 2
    funext entry
    by_cases hentry : entry.1 = i <;> simp [hentry, hfound]

/-! ## 4. Where a task is dropped -/

/-- A dependency of the link is refused, or its task has been dropped. -/
def Refused (env : CompileEnv κ ι) (s : CompileGraph κ ι) (link : PendingLink κ ι) : Prop :=
  (∃ job ∈ link.dependsOnJobIds, ¬ (env.validExistingJob s job ∧ env.accepts s link.jobId job)) ∨
    ∃ i ∈ link.dependsOnIndexes, missing env s link.taskIndex i ∨
      ∀ target, jobOf s.jobMap i = some target → ¬ env.accepts s link.jobId target

/-- A property that edges keep, and dropping the task of a refused link. -/
structure Upheld (env : CompileEnv κ ι) (links : List (PendingLink κ ι))
    (P : CompileGraph κ ι → Prop) : Prop where
  edge : ∀ s edge, P s → P { s with edges := s.edges ++ [edge] }
  cancel : ∀ s, ∀ link ∈ links, Refused env s link → P s →
    P (cancelCompiledTask env s link.taskIndex)

variable {links : List (PendingLink κ ι)} {P : CompileGraph κ ι → Prop}

theorem Upheld.wireJobs (h : Upheld env links P) (hlink : link ∈ links) {jobs : List κ}
    (hjobs : jobs ⊆ link.dependsOnJobIds) (hs : P s) : P (wireJobs env link jobs s) := by
  induction jobs generalizing s with
  | nil => exact hs
  | cons job jobs ih =>
    obtain ⟨hjob, hrest⟩ := List.cons_subset.mp hjobs
    rw [PosseClient.wireJobs]
    split_ifs with haccept
    · exact ih hrest (h.edge s _ hs)
    · exact h.cancel s link hlink (Or.inl ⟨job, hjob, haccept⟩) hs

theorem Upheld.wireIndexes (h : Upheld env links P) (hlink : link ∈ links) {indexes : List ι}
    (hindexes : indexes ⊆ link.dependsOnIndexes) (hs : P s) :
    P (wireIndexes env link indexes s) := by
  induction indexes generalizing s with
  | nil => exact hs
  | cons i indexes ih =>
    obtain ⟨hi, hrest⟩ := List.cons_subset.mp hindexes
    rw [PosseClient.wireIndexes]
    cases htarget : jobOf s.jobMap i with
    | none =>
      exact h.cancel s link hlink (Or.inr ⟨i, hi, Or.inr (by simp [htarget])⟩) hs
    | some target =>
      simp only
      split_ifs with haccept
      · exact ih hrest (h.edge s _ hs)
      · refine h.cancel s link hlink (Or.inr ⟨i, hi, ?_⟩) hs
        simp only [htarget, Option.some.injEq, forall_eq']
        tauto

theorem Upheld.wireLink (h : Upheld env links P) (hlink : link ∈ links) (hs : P s) :
    P (wireLink env s link) := by
  have hjobs := h.wireJobs hlink (List.Subset.refl _) hs
  unfold PosseClient.wireLink
  by_cases hgone : link.jobId ∉ s.created
  · rw [if_pos hgone]
    exact hs
  · rw [if_neg hgone]
    simp only
    split_ifs
    · exact h.wireIndexes hlink (List.Subset.refl _) hjobs
    · exact hjobs

theorem Upheld.wireLinks (h : Upheld env links P) (hs : P s) :
    P (links.foldl (PosseClient.wireLink env) s) :=
  foldl_invariant (fun _ _ hlink => h.wireLink hlink) hs

theorem Upheld.propagate (h : Upheld env links P) (fuel : ℕ) (hs : P s) :
    P (saturate (propagateTurn env) (·.dropped.length) links fuel s) := by
  refine saturate_invariant (fun s link hlink hs => ?_) fuel hs
  unfold propagateTurn
  split_ifs with hturn
  · exact hs
  · obtain ⟨i, hi, hdropped⟩ := List.any_eq_true.mp (not_not.mp (not_or.mp (not_or.mp hturn).2).2)
    refine h.cancel s link hlink (Or.inr ⟨i, hi, Or.inl ?_⟩) hs
    exact Or.inr (Or.inr (Or.inr (of_decide_eq_true (Bool.and_eq_true_iff.mp hdropped).2)))

/-! ## 5. The links are wired -/

/-- A dependency of a link: its index is dropped, or there is an edge to the job it stands for. -/
def WiredAt (env : CompileEnv κ ι) (s : CompileGraph κ ι) (link : PendingLink κ ι) (i : ι) :
    Prop :=
  (env.isInteger i ∧ i ≠ link.taskIndex) ∧
    (i ∈ s.dropped ∨ ∃ job, jobOf s.jobMap i = some job ∧ (link.jobId, job) ∈ s.edges)

/-- Every dependency of a link whose job is left. -/
def Wired (env : CompileEnv κ ι) (s : CompileGraph κ ι) (link : PendingLink κ ι) : Prop :=
  link.jobId ∈ s.created → ∀ i ∈ link.dependsOnIndexes, WiredAt env s link i

omit [DecidableEq κ] in
theorem WiredAt.below {s' : CompileGraph κ ι} {i : ι} (h : WiredAt env s link i)
    (hbelow : s.Below s') : WiredAt env s' link i := by
  refine ⟨h.1, or_iff_not_imp_left.mpr fun hi => ?_⟩
  obtain hdropped | ⟨job, hjob, hedge⟩ := h.2
  · exact absurd (hbelow.dropped hdropped) hi
  · exact ⟨job, (hbelow.targets i hi).trans hjob, hbelow.edges hedge⟩

omit [DecidableEq κ] in
theorem Wired.below {s' : CompileGraph κ ι} (h : Wired env s link) (hbelow : s.Below s') :
    Wired env s' link :=
  fun hleft i hi => (h (hbelow.created hleft) i hi).below hbelow

theorem settled_kept (s₀ : CompileGraph κ ι) :
    Upheld env links fun s => s.Settled env ∧ s₀.Below s where
  edge s edge h := ⟨⟨h.1.1, h.1.2⟩, h.2.trans (below_edge s edge)⟩
  cancel s _ _ _ h := ⟨h.1.cancel _, h.2.trans (below_cancel s _)⟩

theorem wired_kept :
    Upheld env links fun s => s.Settled env ∧ ∀ link ∈ links, Wired env s link where
  edge s edge h := ⟨⟨h.1.1, h.1.2⟩, fun link hlink => (h.2 link hlink).below (below_edge s edge)⟩
  cancel s _ _ _ h :=
    ⟨h.1.cancel _, fun link hlink => (h.2 link hlink).below (below_cancel s _)⟩

/-- **The loop over the indexes** wires each of them, or the job is gone. -/
theorem wireIndexes_wired (hjob : link.jobId ∈ env.compiledTaskJobIds link.taskIndex)
    {indexes : List ι} (hindexes : indexes ⊆ link.dependsOnIndexes) (h : s.Settled env)
    (hleft : link.jobId ∈ (wireIndexes env link indexes s).created) :
    ∀ i ∈ indexes, WiredAt env (wireIndexes env link indexes s) link i := by
  induction indexes generalizing s with
  | nil => simp
  | cons i indexes ih =>
    obtain ⟨-, hrest⟩ := List.cons_subset.mp hindexes
    rw [wireIndexes] at hleft ⊢
    cases htarget : jobOf s.jobMap i with
    | none =>
      rw [htarget] at hleft
      exact absurd hleft (h.jobId_gone hjob)
    | some target =>
      simp only [htarget] at hleft ⊢
      split_ifs at hleft ⊢ with haccept
      · have hwired : WiredAt env { s with edges := s.edges ++ [(link.jobId, target)] } link i := by
          refine ⟨?_, Or.inr ⟨target, htarget, by simp⟩⟩
          have := haccept.1
          unfold missing at this
          tauto
        have hbelow := (Upheld.wireIndexes (settled_kept _) (List.mem_singleton_self link) hrest
          (s := { s with edges := s.edges ++ [(link.jobId, target)] }) ⟨⟨h.1, h.2⟩, .refl _⟩).2
        exact List.forall_mem_cons.mpr ⟨hwired.below hbelow, ih hrest ⟨h.1, h.2⟩ hleft⟩
      · exact absurd hleft (h.jobId_gone hjob)

/-- **The turn of a link** wires it. -/
theorem wireLink_wired (hjob : link.jobId ∈ env.compiledTaskJobIds link.taskIndex)
    (h : s.Settled env) : Wired env (wireLink env s link) link := by
  intro hleft
  have hjobs := ((settled_kept s).wireJobs (List.mem_singleton_self link) (List.Subset.refl _)
    ⟨h, .refl s⟩).1
  unfold wireLink at hleft ⊢
  by_cases hgone : link.jobId ∉ s.created
  · rw [if_pos hgone] at hleft
    exact absurd hleft hgone
  · rw [if_neg hgone] at hleft ⊢
    by_cases hgone' : link.jobId ∉ (wireJobs env link link.dependsOnJobIds s).created
    · rw [if_pos hgone'] at hleft
      exact absurd hleft hgone'
    · rw [if_neg hgone'] at hleft ⊢
      exact wireIndexes_wired hjob (List.Subset.refl _) hjobs hleft

theorem wireLinks_wired (hjobs : ∀ link ∈ links, link.jobId ∈ env.compiledTaskJobIds link.taskIndex)
    (h : s.Settled env) :
    ((links.foldl (wireLink env) s).Settled env ∧ s.Below (links.foldl (wireLink env) s)) ∧
      ∀ link ∈ links, Wired env (links.foldl (wireLink env) s) link := by
  induction links generalizing s with
  | nil => exact ⟨⟨h, .refl s⟩, by simp⟩
  | cons link links ih =>
    obtain ⟨hjob, hrest⟩ := List.forall_mem_cons.mp hjobs
    obtain ⟨hsettled, hbelow⟩ := (settled_kept s).wireLink (List.mem_singleton_self link)
      ⟨h, .refl s⟩
    obtain ⟨⟨hsettled', hbelow'⟩, hwired⟩ := ih hrest hsettled
    exact ⟨⟨hsettled', hbelow.trans hbelow'⟩,
      List.forall_mem_cons.mpr ⟨(wireLink_wired hjob h).below hbelow', hwired⟩⟩

/-! ## 6. What is left waits for nothing dropped -/

theorem propagateTurn_marks (env : CompileEnv κ ι) :
    Marks (propagateTurn env) (fun s => s.dropped) (fun link => link.taskIndex) := by
  intro s link
  unfold propagateTurn
  split_ifs with h
  · exact Or.inl rfl
  · have hnew : link.taskIndex ∉ s.dropped := fun hdropped => h (Or.inl hdropped)
    refine Or.inr ⟨hnew, _, ?_, (aliasLoop_spec env.compiledTaskJobIds s.jobMap _).1⟩
    rw [cancelCompiledTask, if_neg hnew]

/-- **What is left waits for nothing dropped**: whatever edges are refused, each job that is
still created after the two loops has for every dependency an edge to the job of a task that was
not dropped, and that job was not canceled. -/
theorem compiled_survivors
    (hjobs : ∀ link ∈ links, link.jobId ∈ env.compiledTaskJobIds link.taskIndex)
    (h : s.Settled env) :
    ∀ link ∈ links, link.jobId ∈ (completeGraph env links s).created →
      ∀ i ∈ link.dependsOnIndexes, i ≠ link.taskIndex ∧ i ∉ (completeGraph env links s).dropped ∧
        ∃ job, jobOf (completeGraph env links s).jobMap i = some job ∧
          (link.jobId, job) ∈ (completeGraph env links s).edges ∧
          job ∉ (completeGraph env links s).canceled := by
  obtain ⟨⟨hsettled, -⟩, hwired⟩ := wireLinks_wired hjobs h
  obtain ⟨hend, hall⟩ : (completeGraph env links s).Settled env ∧
      ∀ link ∈ links, Wired env (completeGraph env links s) link :=
    wired_kept.propagate _ ⟨hsettled, hwired⟩
  intro link hlink hleft i hi
  have hfixed : propagateTurn env (completeGraph env links s) link = completeGraph env links s :=
    saturate_marks_fixed (propagateTurn_marks env) (links.foldl (wireLink env) s) link hlink
  obtain ⟨⟨hint, hne⟩, hwire⟩ := hall link hlink hleft i hi
  have hkept : i ∉ (completeGraph env links s).dropped := by
    intro hdropped
    refine hend.jobId_gone (hjobs link hlink) ?_
    have hturn : propagateTurn env (completeGraph env links s) link =
        cancelCompiledTask env (completeGraph env links s) link.taskIndex := by
      refine if_neg (not_or.mpr ⟨fun htask => ?_, not_or.mpr ⟨not_not.mpr hleft, ?_⟩⟩)
      · exact hend.gone _ htask _ (hjobs link hlink) hleft
      · exact not_not.mpr (List.any_eq_true.mpr ⟨i, hi, by simp [hint, hdropped]⟩)
    rw [← hturn, hfixed]
    exact hleft
  obtain ⟨job, hjob, hedge⟩ := hwire.resolve_left hkept
  exact ⟨hne, hkept, job, hjob, hedge, (hend.unmapped _ (jobOf_mem hjob)).2⟩

/-- Five tasks `i` with jobs `10 + i`; there is no existing job. -/
def chainEnv : CompileEnv ℕ ℕ :=
  ⟨fun _ => true, fun i => decide (i < 5), fun i => [10 + i], fun _ _ => false, fun _ _ _ => true⟩

/-- Task 2 is wired to task 1 before that is dropped, because of task 0; task 4 waits for 3. -/
def chainLinks : List (PendingLink ℕ ℕ) :=
  [⟨⟨12, 2, [1]⟩, []⟩, ⟨⟨11, 1, [0]⟩, []⟩, ⟨⟨10, 0, []⟩, [99]⟩, ⟨⟨14, 4, [3]⟩, []⟩]

def chainStart : CompileGraph ℕ ℕ :=
  ⟨[], [(0, 10), (1, 11), (2, 12), (3, 13), (4, 14)], [10, 11, 12, 13, 14], [], []⟩

theorem compiled_survivors_chain :
    (completeGraph chainEnv chainLinks chainStart).created = [13, 14] ∧
      3 ∉ (completeGraph chainEnv chainLinks chainStart).dropped :=
  ⟨by decide, (compiled_survivors (by decide) ⟨by decide, by decide⟩ ⟨⟨14, 4, [3]⟩, []⟩
    (by simp [chainLinks]) (by decide) 3 (by simp)).2.1⟩

/-! ## 7. Nothing is dropped without a reason -/

variable {s₀ : CompileGraph κ ι}

/-- The reasons for which a task is dropped. -/
inductive Voided (env : CompileEnv κ ι) (links : List (PendingLink κ ι)) (s₀ : CompileGraph κ ι) :
    ι → Prop
  | start {i : ι} : i ∈ s₀.dropped → Voided env links s₀ i
  | refused {s : CompileGraph κ ι} {link : PendingLink κ ι} : link ∈ links → s₀.Below s →
      (∀ i ∈ link.dependsOnIndexes, i ∉ s.dropped) → Refused env s link →
      Voided env links s₀ link.taskIndex
  | needs {link : PendingLink κ ι} {i : ι} : link ∈ links → i ∈ link.dependsOnIndexes →
      Voided env links s₀ i → Voided env links s₀ link.taskIndex
  | shares {i k : ι} {job : κ} : Voided env links s₀ i → (k, job) ∈ s₀.jobMap →
      job ∈ env.compiledTaskJobIds i ∨ (i, job) ∈ s₀.jobMap → Voided env links s₀ k

theorem Voided.alias {taskIndex : ι} (h : Voided env links s₀ taskIndex)
    (hmap : s.jobMap ⊆ s₀.jobMap) :
    ∀ i ∈ (aliasLoop env.compiledTaskJobIds s.jobMap taskIndex).1, Voided env links s₀ i := by
  have hfound := @saturate_invariant (List ι × List κ) (ι × κ)
    (aliasTurn env.compiledTaskJobIds) (·.1.length) s.jobMap
    (fun found => (∀ i ∈ found.1, Voided env links s₀ i) ∧ ∀ job ∈ found.2,
      ∃ i, Voided env links s₀ i ∧ (job ∈ env.compiledTaskJobIds i ∨ (i, job) ∈ s₀.jobMap))
    (fun found entry hentry hs => by
      unfold aliasTurn
      split_ifs with hturn
      · exact hs
      · obtain ⟨i, hi, hjob⟩ := hs.2 entry.2 (not_not.mp (not_or.mp hturn).2)
        have hnew : Voided env links s₀ entry.1 := hi.shares (hmap hentry) hjob
        refine ⟨List.forall_mem_append.mpr ⟨hs.1, List.forall_mem_singleton.mpr hnew⟩,
          List.forall_mem_append.mpr ⟨hs.2, fun job hjob => ⟨entry.1, hnew, Or.inl hjob⟩⟩⟩)
    (s.jobMap.length + 1) ([taskIndex], _) ⟨List.forall_mem_singleton.mpr h,
      fun job hjob => ⟨taskIndex, h, (List.mem_append.mp hjob).imp_right fun hjob =>
        hmap (jobOf_mem (Option.mem_toList.mp hjob))⟩⟩
  exact hfound.1

theorem voided_kept : Upheld env links fun s =>
    s₀.Below s ∧ ∀ i ∈ s.dropped, Voided env links s₀ i where
  edge s edge h := ⟨h.1.trans (below_edge s edge), h.2⟩
  cancel s link hlink hrefused h := by
    refine ⟨h.1.trans (below_cancel s _), ?_⟩
    have htask : Voided env links s₀ link.taskIndex := by
      by_cases hneeds : ∃ i ∈ link.dependsOnIndexes, i ∈ s.dropped
      · obtain ⟨i, hi, hdropped⟩ := hneeds
        exact .needs hlink hi (h.2 i hdropped)
      · exact .refused hlink h.1 (fun i hi hdropped => hneeds ⟨i, hi, hdropped⟩) hrefused
    unfold cancelCompiledTask
    split_ifs
    · exact h.2
    · exact List.forall_mem_append.mpr ⟨h.2, htask.alias h.1.jobMap⟩

end PosseClient
