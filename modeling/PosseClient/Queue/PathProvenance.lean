/-
# Where a work item's content of a path came from

`collectCrossWiPathProvenance` of `cross-wi-deps.js`: a breadth-first walk over the records of
applied syncs, merge dependencies and bare releases that overlap a path, with one flag for content
this branch lacks.

* A work item is reached by chains of records (`RecordChain`): through content alone, or through a
  bare release, and by chains of both kinds.  The walk keeps the flag of the first one it meets.
* `collectCrossWiPathProvenance_classified_iff`: its answer is right exactly where that does not
  matter: whatever lies behind a release is released itself, or is content of a work item the walk
  first met as lacking.

`Date.parse` results are integers, and the branch reset of a metadata is read by a parameter.
-/
import PosseClient.Lib.BreadthFirst
import PosseClient.Queue.MergeDependencies
import PosseClient.Queue.WorkItemOrder

namespace PosseClient

open BreadthFirst

/-! ## 1. Records -/

/-- An entry of `_cross_wi_file_syncs_applied`. -/
structure AppliedSync where
  changeKind : Option String := none
  path : String
  source : Option ℤ
  appliedAtMs : Option ℤ := none
  deriving DecidableEq, Repr

/-- An entry of `_cross_wi_existing_order_releases`, as the walk reads it. -/
structure BareRelease where
  path : String
  source : Option ℤ
  deriving DecidableEq, Repr

/-- What the walk reads of a job's payload; `rejectedAtMs` is `_review_retry.rejected_at`. -/
structure HandoffPayload where
  applied : List AppliedSync := []
  releases : List BareRelease := []
  rejectedAtMs : Option ℤ := none
  deriving DecidableEq, Repr

/-- The tables the walk reads. -/
structure HandoffDb (V : Type*) where
  workItems : List (MergeWorkItem V) := []
  jobs : List (ℕ × HandoffPayload) := []

/-- What the walk is given besides the tables: the clock's text, the instant of the branch reset in
a metadata, and the path. -/
structure ProvenanceQuery (V : Type*) where
  now : String
  resetAtMs : WorkItemMetadata V → Option ℤ
  path : String

variable {V : Type*}

/-- `targetPath`. -/
def ProvenanceQuery.targetPath (query : ProvenanceQuery V) : String :=
  normalizeCrossWiRepoPath query.path

/-- `readWorkItem`. -/
def HandoffDb.readWorkItem (db : HandoffDb V) (id : ℕ) : Option (MergeWorkItem V) :=
  db.workItems.find? (fun workItem => workItem.id = id)

/-- `readJobPayloads`. -/
def HandoffDb.readJobPayloads (db : HandoffDb V) (id : ℕ) : List HandoffPayload :=
  (db.jobs.filter (fun job => job.1 = id)).map Prod.snd

/-- `repoPathsOverlap`. -/
def repoPathsOverlap (left right : String) : Bool :=
  let a := normalizeCrossWiRepoPath left
  let b := normalizeCrossWiRepoPath right
  if a = "" ∨ b = "" then false
  else if a = "*" ∨ a = "." ∨ b = "*" ∨ b = "." then true
  else a == b || startsWith b (a ++ "/") || startsWith a (b ++ "/")

/-- The merge dependencies of a work item that may be missing. -/
def HandoffDb.dependencies (db : HandoffDb V) (now : String) (id : ℕ) : List (MergeDependency V) :=
  ((db.readWorkItem id).map (getWorkItemMergeDependencies now)).getD []

/-- `staleAppliedSyncPredicate`. -/
def staleAppliedSyncPredicate (db : HandoffDb V) (query : ProvenanceQuery V) (id : ℕ)
    (payloads : List HandoffPayload) (entry : AppliedSync) : Bool :=
  let resetAtMs := (db.readWorkItem id).bind (fun workItem => query.resetAtMs workItem.metadata)
  let legacyRejectedAtMs := (payloads.filterMap HandoffPayload.rejectedAtMs).max?
  let dependencySources := (db.dependencies query.now id).map MergeDependency.source
  match entry.appliedAtMs with
  | none => false
  | some appliedAtMs =>
    resetAtMs.any (fun reset => appliedAtMs ≤ reset) ||
      (legacyRejectedAtMs.any (fun rejected => appliedAtMs < rejected) &&
        entry.source ∉ dependencySources)

/-! ## 2. The walk -/

/-- `contentSources` of a work item. -/
def contentSources (db : HandoffDb V) (query : ProvenanceQuery V) (id : ℕ) : List (Option ℤ) :=
  let payloads := db.readJobPayloads id
  let applied := payloads.flatMap (fun payload => (payload.applied.filter (fun entry =>
    entry.changeKind != some "skipped" && repoPathsOverlap entry.path query.targetPath &&
      !staleAppliedSyncPredicate db query id payloads entry)).map AppliedSync.source)
  let dependencies := ((db.dependencies query.now id).filter (fun dep =>
    dep.path != "" && repoPathsOverlap dep.path query.targetPath)).map MergeDependency.source
  (applied ++ dependencies).eraseDups

/-- `releasedBy` of a work item. -/
def releasedBy (db : HandoffDb V) (query : ProvenanceQuery V) (id : ℕ) : List (Option ℤ) :=
  ((db.readJobPayloads id).flatMap (fun payload => (payload.releases.filter (fun entry =>
    repoPathsOverlap entry.path query.targetPath)).map BareRelease.source)).eraseDups

/-- The sets and the queue of the walk. -/
structure ProvenanceWalk where
  carriedIds : List ℕ := []
  outstandingIds : List ℕ := []
  visited : List ℕ
  queue : List (ℕ × Bool)

/-- `visit`, for an id that is positive. -/
def ProvenanceWalk.visitId (lacking : Bool) (walk : ProvenanceWalk) (sourceId : ℕ) :
    ProvenanceWalk :=
  let noted := if lacking then { walk with outstandingIds := walk.outstandingIds ++ [sourceId] }
    else { walk with carriedIds := walk.carriedIds ++ [sourceId] }
  if sourceId ∈ walk.visited then noted
  else { noted with
    visited := walk.visited ++ [sourceId], queue := walk.queue ++ [(sourceId, lacking)] }

/-- `visit`. -/
def ProvenanceWalk.visit (lacking : Bool) (walk : ProvenanceWalk) (source : Option ℤ) :
    ProvenanceWalk :=
  match workItemId source with
  | none => walk
  | some sourceId => walk.visitId lacking sourceId

/-- One turn of the loop, for the head of the queue. -/
def ProvenanceWalk.expand (db : HandoffDb V) (query : ProvenanceQuery V) (id : ℕ) (lacking : Bool)
    (walk : ProvenanceWalk) : ProvenanceWalk :=
  (releasedBy db query id).foldl (ProvenanceWalk.visit true)
    ((contentSources db query id).foldl (ProvenanceWalk.visit lacking) walk)

/-- The `while` loop, for at most `fuel` turns; `none` is a loop that has not ended by then. -/
def ProvenanceWalk.run (db : HandoffDb V) (query : ProvenanceQuery V) (maxWorkItems : ℕ) :
    ℕ → ProvenanceWalk → Option ProvenanceWalk
  | 0, _ => none
  | fuel + 1, walk =>
    match walk.queue with
    | [] => some walk
    | (id, lacking) :: rest =>
      if walk.visited.length ≤ maxWorkItems then
        run db query maxWorkItems fuel
          (ProvenanceWalk.expand db query id lacking { walk with queue := rest })
      else some walk

/-- `live`. -/
def liveWorkItem (db : HandoffDb V) (startId : ℕ) (allowFailed : Bool) (id : ℕ) :
    Option (MergeWorkItem V) :=
  if id = startId then none
  else (db.readWorkItem id).filter (fun workItem =>
    workItem.mergeState != some .merged && workItem.status != .canceled &&
      (allowFailed || workItem.status != .failed))

/-- `describe`. -/
def describeWorkItem (workItem : MergeWorkItem V) : ℕ × Option String :=
  (workItem.id, (workItem.branchName.map trim).filter (· ≠ ""))

/-- What `collectCrossWiPathProvenance` answers. -/
structure PathProvenance where
  carried : List (ℕ × Option String)
  outstanding : List (ℕ × Option String)
  complete : Bool
  deriving DecidableEq, Repr

/-- What follows the loop. -/
def ProvenanceWalk.finish (db : HandoffDb V) (startId : ℕ) (walk : ProvenanceWalk) :
    PathProvenance :=
  let outstanding :=
    (walk.outstandingIds.eraseDups.filterMap (liveWorkItem db startId false)).map describeWorkItem
  let carried := ((walk.carriedIds.eraseDups.filter
    (fun id => id ∉ outstanding.map Prod.fst)).filterMap
      (liveWorkItem db startId true)).map describeWorkItem
  ⟨carried, outstanding, walk.queue.isEmpty⟩

/-- `collectCrossWiPathProvenance`. -/
def collectCrossWiPathProvenance (db : HandoffDb V) (query : ProvenanceQuery V)
    (maxWorkItems fuel startId : ℕ) : Option PathProvenance :=
  if startId = 0 ∨ query.targetPath = "" then some ⟨[], [], true⟩
  else (ProvenanceWalk.run db query maxWorkItems fuel
    { visited := [startId], queue := [(startId, false)] }).map (ProvenanceWalk.finish db startId)

/-! ## 3. The graph of the records -/

section Graph

variable (db : HandoffDb V) (query : ProvenanceQuery V)

/-- The work items whose content a work item holds. -/
def carriedFrom (id : ℕ) : List ℕ :=
  (contentSources db query id).filterMap workItemId

/-- The work items that released the path to a work item. -/
def lackedFrom (id : ℕ) : List ℕ :=
  (releasedBy db query id).filterMap workItemId

/-- All the work items the records of one name, in the order the walk visits them. -/
def recordedFrom (id : ℕ) : List ℕ :=
  carriedFrom db query id ++ lackedFrom db query id

/-- A record of applied content, or a merge dependency, that overlaps the path. -/
def ContentRecord (id source : ℕ) : Prop :=
  (∃ payload ∈ db.readJobPayloads id, ∃ entry ∈ payload.applied,
    entry.changeKind ≠ some "skipped" ∧ repoPathsOverlap entry.path query.targetPath = true ∧
      staleAppliedSyncPredicate db query id (db.readJobPayloads id) entry = false ∧
      workItemId entry.source = some source) ∨
  ∃ dep ∈ db.dependencies query.now id,
    dep.path ≠ "" ∧ repoPathsOverlap dep.path query.targetPath = true ∧
      workItemId dep.source = some source

/-- A bare release of the path. -/
def ReleaseRecord (id source : ℕ) : Prop :=
  ∃ payload ∈ db.readJobPayloads id, ∃ entry ∈ payload.releases,
    repoPathsOverlap entry.path query.targetPath = true ∧ workItemId entry.source = some source

variable {db query} {id source : ℕ}

theorem mem_carriedFrom : source ∈ carriedFrom db query id ↔ ContentRecord db query id source := by
  unfold carriedFrom contentSources ContentRecord
  simp only [List.mem_filterMap, List.mem_eraseDups, List.mem_append, List.mem_flatMap,
    List.mem_map, List.mem_filter, Bool.and_eq_true, bne_iff_ne, Bool.not_eq_true']
  constructor
  · rintro ⟨value, ⟨payload, hpayload, entry, ⟨hentry, ⟨hkind, hover⟩, hfresh⟩, rfl⟩ |
      ⟨dep, ⟨hdep, hpath, hover⟩, rfl⟩, hsource⟩
    · exact Or.inl ⟨payload, hpayload, entry, hentry, hkind, hover, hfresh, hsource⟩
    · exact Or.inr ⟨dep, hdep, hpath, hover, hsource⟩
  · rintro (⟨payload, hpayload, entry, hentry, hkind, hover, hfresh, hsource⟩ |
      ⟨dep, hdep, hpath, hover, hsource⟩)
    · exact ⟨_, Or.inl ⟨payload, hpayload, entry, ⟨hentry, ⟨hkind, hover⟩, hfresh⟩, rfl⟩, hsource⟩
    · exact ⟨_, Or.inr ⟨dep, ⟨hdep, hpath, hover⟩, rfl⟩, hsource⟩

theorem mem_lackedFrom : source ∈ lackedFrom db query id ↔ ReleaseRecord db query id source := by
  unfold lackedFrom releasedBy ReleaseRecord
  simp only [List.mem_filterMap, List.mem_eraseDups, List.mem_flatMap, List.mem_map,
    List.mem_filter]
  constructor
  · rintro ⟨value, ⟨payload, hpayload, entry, ⟨hentry, hover⟩, rfl⟩, hsource⟩
    exact ⟨payload, hpayload, entry, hentry, hover, hsource⟩
  · rintro ⟨payload, hpayload, entry, hentry, hover, hsource⟩
    exact ⟨_, ⟨payload, hpayload, entry, ⟨hentry, hover⟩, rfl⟩, hsource⟩

/-- Where no branch has been reset, no record of applied content is stale. -/
theorem stale_eq_false_of_no_reset {payloads : List HandoffPayload}
    (hreset : ∀ workItem ∈ db.workItems, query.resetAtMs workItem.metadata = none)
    (hrejected : ∀ payload ∈ payloads, payload.rejectedAtMs = none) (entry : AppliedSync) :
    staleAppliedSyncPredicate db query id payloads entry = false := by
  have hresetAt : (db.readWorkItem id).bind (fun workItem => query.resetAtMs workItem.metadata) =
      none := by
    rw [Option.bind_eq_none_iff]
    intro workItem hread
    exact hreset workItem (List.mem_of_find?_eq_some hread)
  have hrejectedAt : (payloads.filterMap HandoffPayload.rejectedAtMs).max? = none := by
    have hnil : payloads.filterMap HandoffPayload.rejectedAtMs = [] :=
      List.filterMap_eq_nil_iff.mpr hrejected
    rw [hnil]
    rfl
  unfold staleAppliedSyncPredicate
  rw [hresetAt, hrejectedAt]
  cases entry.appliedAtMs <;> rfl

variable (db query)

/-- **A chain of records** from a work item: with a bare release among them, or through content
alone. -/
inductive RecordChain (start : ℕ) : Bool → ℕ → Prop
  | nil : RecordChain start false start
  | content {released : Bool} {id source : ℕ} :
      RecordChain start released id → ContentRecord db query id source →
        RecordChain start released source
  | release {released : Bool} {id source : ℕ} :
      RecordChain start released id → ReleaseRecord db query id source →
        RecordChain start true source

/-- A position taken among the records of a work item is one of a release. -/
def takesRelease (id i : ℕ) : Bool :=
  decide ((carriedFrom db query id).length ≤ i)

/-- A route takes a bare release. -/
def lacks : ℕ → List ℕ → Bool
  | _, [] => false
  | id, i :: route =>
    takesRelease db query id i ||
      ((recordedFrom db query id)[i]?).any (fun source => lacks source route)

variable {db query}

theorem lacks_snoc {start id : ℕ} {route : List ℕ}
    (h : follow (recordedFrom db query) start route = some id) (i : ℕ)
    (hi : i < (recordedFrom db query id).length) :
    lacks db query start (route ++ [i]) =
      (lacks db query start route || takesRelease db query id i) := by
  induction route generalizing start with
  | nil =>
    obtain rfl : start = id := Option.some.inj h
    rw [List.nil_append, lacks, lacks, List.getElem?_eq_getElem hi]
    simp [lacks]
  | cons j route ih =>
    rw [follow, Option.bind_eq_some_iff] at h
    obtain ⟨source, hsource, h⟩ := h
    rw [List.cons_append, lacks, lacks, hsource, Option.any_some, Option.any_some, ih h,
      Bool.or_assoc]

theorem getElem?_recordedFrom {i : ℕ} :
    (recordedFrom db query id)[i]? = some source ↔
      (takesRelease db query id i = false ∧ (carriedFrom db query id)[i]? = some source) ∨
      (takesRelease db query id i = true ∧
        (lackedFrom db query id)[i - (carriedFrom db query id).length]? = some source) := by
  unfold recordedFrom takesRelease
  rcases Nat.lt_or_ge i (carriedFrom db query id).length with hlt | hge
  · rw [List.getElem?_append_left hlt]
    simp [hlt]
  · rw [List.getElem?_append_right hge]
    simp [hge]

/-- **The chains are the routes.** -/
theorem recordChain_iff {start : ℕ} {released : Bool} :
    RecordChain db query start released id ↔
      ∃ route, follow (recordedFrom db query) start route = some id ∧
        lacks db query start route = released := by
  constructor
  · intro h
    induction h with
    | nil => exact ⟨[], rfl, rfl⟩
    | @content released id source _ hrecord ih =>
      obtain ⟨route, hroute, rfl⟩ := ih
      obtain ⟨i, hi⟩ := List.mem_iff_getElem?.mp (mem_carriedFrom.mpr hrecord)
      have hlt : i < (carriedFrom db query id).length := (List.getElem?_eq_some_iff.mp hi).1
      have htakes : takesRelease db query id i = false := decide_eq_false (by omega)
      have hget : (recordedFrom db query id)[i]? = some source :=
        getElem?_recordedFrom.mpr (Or.inl ⟨htakes, hi⟩)
      refine ⟨route ++ [i], (follow_snoc _ hroute i).trans hget, ?_⟩
      rw [lacks_snoc hroute i (List.getElem?_eq_some_iff.mp hget).1, htakes, Bool.or_false]
    | @release released id source _ hrecord ih =>
      obtain ⟨route, hroute, rfl⟩ := ih
      obtain ⟨i, hi⟩ := List.mem_iff_getElem?.mp (mem_lackedFrom.mpr hrecord)
      have htakes : takesRelease db query id ((carriedFrom db query id).length + i) = true :=
        decide_eq_true (by omega)
      have hget : (recordedFrom db query id)[(carriedFrom db query id).length + i]? =
          some source := by
        refine getElem?_recordedFrom.mpr (Or.inr ⟨htakes, ?_⟩)
        rwa [Nat.add_sub_cancel_left]
      refine ⟨route ++ [_], (follow_snoc _ hroute _).trans hget, ?_⟩
      rw [lacks_snoc hroute _ (List.getElem?_eq_some_iff.mp hget).1, htakes, Bool.or_true]
  · rintro ⟨route, hroute, rfl⟩
    induction route using List.reverseRecOn generalizing id with
    | nil =>
      obtain rfl : start = id := Option.some.inj hroute
      exact .nil
    | append_singleton route i ih =>
      rw [follow_append, Option.bind_eq_some_iff] at hroute
      obtain ⟨before, hbefore, hstep⟩ := hroute
      have hget : (recordedFrom db query before)[i]? = some id := by
        rw [← follow_snoc _ hbefore, follow_append, hbefore]
        exact hstep
      rw [lacks_snoc hbefore i (List.getElem?_eq_some_iff.mp hget).1]
      rcases getElem?_recordedFrom.mp hget with ⟨htakes, hmem⟩ | ⟨htakes, hmem⟩
      · rw [htakes, Bool.or_false]
        exact (ih hbefore).content (mem_carriedFrom.mp (List.mem_of_getElem? hmem))
      · rw [htakes, Bool.or_true]
        exact (ih hbefore).release (mem_lackedFrom.mp (List.mem_of_getElem? hmem))

end Graph

/-! ## 4. The walk keeps the flag of the first route -/

section Simulation

variable {db : HandoffDb V} {query : ProvenanceQuery V} {start : ℕ}

theorem foldl_visit (lacking : Bool) (sources : List (Option ℤ)) (walk : ProvenanceWalk) :
    sources.foldl (ProvenanceWalk.visit lacking) walk =
      (sources.filterMap workItemId).foldl (ProvenanceWalk.visitId lacking) walk := by
  rw [List.foldl_filterMap]
  refine congrArg (fun visit => sources.foldl visit walk) ?_
  funext walk source
  unfold ProvenanceWalk.visit
  cases workItemId source <;> rfl

theorem expand_eq (id : ℕ) (lacking : Bool) (walk : ProvenanceWalk) :
    ProvenanceWalk.expand db query id lacking walk =
      (lackedFrom db query id).foldl (ProvenanceWalk.visitId true)
        ((carriedFrom db query id).foldl (ProvenanceWalk.visitId lacking) walk) := by
  unfold ProvenanceWalk.expand
  rw [foldl_visit, foldl_visit]
  rfl

/-- How the queue shows what was met. -/
def queued (db : HandoffDb V) (query : ProvenanceQuery V) (start : ℕ)
    (met : List (List ℕ × ℕ)) : List (ℕ × Bool) :=
  met.map (fun m => (m.2, lacks db query start m.1))

/-- Sources visited with one flag: the walk meets them, and notes them all under the flag. -/
theorem foldl_visitId (db : HandoffDb V) (query : ProvenanceQuery V) (start : ℕ)
    (route : List ℕ) (lacking : Bool) (sources : List ℕ) : ∀ (i : ℕ) (met : List (List ℕ × ℕ))
    (walk : ProvenanceWalk),
    (∀ j, i ≤ j → j < i + sources.length → lacks db query start (route ++ [j]) = lacking) →
    walk.visited = met.map Prod.snd →
    ∃ fresh, meet route i sources met = met ++ fresh ∧
      sources.foldl (ProvenanceWalk.visitId lacking) walk =
        { carriedIds := if lacking then walk.carriedIds else walk.carriedIds ++ sources
          outstandingIds := if lacking then walk.outstandingIds ++ sources
            else walk.outstandingIds
          visited := (met ++ fresh).map Prod.snd
          queue := walk.queue ++ queued db query start fresh } := by
  induction sources with
  | nil =>
    intro i met walk _ hvisited
    refine ⟨[], (List.append_nil met).symm, ?_⟩
    cases lacking <;> simp [queued, ← hvisited]
  | cons source sources ih =>
    intro i met walk hflag hvisited
    have hrest : ∀ j, i + 1 ≤ j → j < i + 1 + sources.length →
        lacks db query start (route ++ [j]) = lacking := by
      intro j hj hlt
      refine hflag j (by omega) ?_
      rw [List.length_cons]
      omega
    rw [meet, List.foldl_cons]
    by_cases hmem : source ∈ met.map Prod.snd
    · rw [if_pos hmem]
      have hstep : (ProvenanceWalk.visitId lacking walk source).visited = met.map Prod.snd := by
        rw [← hvisited] at hmem ⊢
        cases lacking <;> simp [ProvenanceWalk.visitId, hmem]
      obtain ⟨fresh, hmeet, hfold⟩ := ih (i + 1) _ _ hrest hstep
      refine ⟨fresh, hmeet, ?_⟩
      rw [hfold]
      rw [← hvisited] at hmem
      cases lacking <;> simp [ProvenanceWalk.visitId, hmem]
    · rw [if_neg hmem]
      have hmem' : source ∉ walk.visited := hvisited ▸ hmem
      have hstep : (ProvenanceWalk.visitId lacking walk source).visited =
          (met ++ [(route ++ [i], source)]).map Prod.snd := by
        rw [List.map_append, ← hvisited]
        cases lacking <;> simp [ProvenanceWalk.visitId, hmem']
      obtain ⟨fresh, hmeet, hfold⟩ := ih (i + 1) _ _ hrest hstep
      refine ⟨(route ++ [i], source) :: fresh, by rw [hmeet, List.append_assoc]; rfl, ?_⟩
      have hhead : lacks db query start (route ++ [i]) = lacking := by
        refine hflag i le_rfl ?_
        rw [List.length_cons]
        omega
      rw [hfold]
      cases lacking <;> simp [ProvenanceWalk.visitId, hmem', queued, hhead]

theorem meet_append {route : List ℕ} (xs ys : List ℕ) : ∀ {i : ℕ} {met : List (List ℕ × ℕ)},
    meet route i (xs ++ ys) met = meet route (i + xs.length) ys (meet route i xs met) := by
  induction xs with
  | nil => intro i met; rfl
  | cons x xs ih =>
    intro i met
    rw [List.cons_append, meet, meet, ih, List.length_cons]
    congr 1
    omega

/-- **The relation** between the walk of the source and the walk over routes. -/
structure Simulates (db : HandoffDb V) (query : ProvenanceQuery V) (start done : ℕ)
    (met : List (List ℕ × ℕ)) (walk : ProvenanceWalk) : Prop where
  visited : walk.visited = met.map Prod.snd
  queue : walk.queue = queued db query start (met.drop done)
  carried : ∀ id, id ∈ walk.carriedIds ↔ ∃ m ∈ met.take done,
    lacks db query start m.1 = false ∧ id ∈ carriedFrom db query m.2
  outstanding : ∀ id, id ∈ walk.outstandingIds ↔ ∃ m ∈ met.take done,
    id ∈ lackedFrom db query m.2 ∨
      lacks db query start m.1 = true ∧ id ∈ carriedFrom db query m.2

theorem simulates_start (db : HandoffDb V) (query : ProvenanceQuery V) (start : ℕ) :
    Simulates db query start 0 [([], start)]
      { visited := [start], queue := [(start, false)] } :=
  ⟨rfl, rfl, fun id => by simp, fun id => by simp⟩

/-- **The step**: the head of the queue is expanded. -/
theorem Simulates.step {done id : ℕ} {route : List ℕ} {met : List (List ℕ × ℕ)}
    {walk : ProvenanceWalk} (h : Simulates db query start done met walk)
    (hget : met[done]? = some (route, id))
    (hroute : follow (recordedFrom db query) start route = some id) :
    Simulates db query start (done + 1) (meet route 0 (recordedFrom db query id) met)
      (ProvenanceWalk.expand db query id (lacks db query start route)
        { walk with queue := queued db query start (met.drop (done + 1)) }) := by
  have hlt : done < met.length := (List.getElem?_eq_some_iff.mp hget).1
  have hflag : ∀ j, j < (recordedFrom db query id).length →
      lacks db query start (route ++ [j]) =
        (lacks db query start route || takesRelease db query id j) := fun j hj =>
    lacks_snoc hroute j hj
  have hlen : (recordedFrom db query id).length =
      (carriedFrom db query id).length + (lackedFrom db query id).length := List.length_append
  -- the content sources first, under the flag of the work item
  obtain ⟨fresh, hmeet, hfold⟩ := foldl_visitId db query start route
    (lacks db query start route) (carriedFrom db query id) 0 met
    { walk with queue := queued db query start (met.drop (done + 1)) }
    (fun j _ hj => by
      rw [hflag j (by omega), takesRelease, decide_eq_false (by omega), Bool.or_false]) h.visited
  -- then the bare releases
  obtain ⟨fresh', hmeet', hfold'⟩ := foldl_visitId db query start route true
    (lackedFrom db query id) (carriedFrom db query id).length (met ++ fresh)
    ((carriedFrom db query id).foldl (ProvenanceWalk.visitId (lacks db query start route))
      { walk with queue := queued db query start (met.drop (done + 1)) })
    (fun j hj hj' => by
      rw [hflag j (by omega), takesRelease, decide_eq_true hj, Bool.or_true])
    (by rw [hfold])
  have hmet : meet route 0 (recordedFrom db query id) met = met ++ (fresh ++ fresh') := by
    rw [recordedFrom, meet_append, hmeet, Nat.zero_add, hmeet', List.append_assoc]
  have htake : (met ++ (fresh ++ fresh')).take (done + 1) = met.take done ++ [(route, id)] := by
    rw [List.take_append_of_le_length (by omega), List.take_add_one, hget]
    rfl
  rw [hmet, expand_eq, hfold', hfold]
  constructor
  · rw [List.append_assoc]
  · simp only [List.drop_append_of_le_length (show done + 1 ≤ met.length by omega), queued,
      List.map_append, List.append_assoc]
  · intro source
    rw [htake]
    dsimp only
    simp only [List.mem_append, List.mem_singleton, or_and_right, exists_or, exists_eq_left]
    cases hlacks : lacks db query start route <;> simp [h.carried source]
  · intro source
    rw [htake]
    dsimp only
    simp only [List.mem_append, List.mem_singleton, or_and_right, exists_or, exists_eq_left]
    cases hlacks : lacks db query start route <;> simp [h.outstanding source, or_assoc, or_comm]

/-- **The run**: with room for all the work items the records lead to, the loop ends having expanded
every one, each under the flag of its first route. -/
theorem simulates_run {nodes : Finset ℕ} {maxWorkItems : ℕ}
    (hnodes : ∀ route id, follow (recordedFrom db query) start route = some id → id ∈ nodes)
    (hmax : nodes.card ≤ maxWorkItems) {fuel done : ℕ} {met : List (List ℕ × ℕ)}
    {walk : ProvenanceWalk} (hwalked : Walked (recordedFrom db query) start done met)
    (h : Simulates db query start done met walk) (hfuel : nodes.card < fuel + done) :
    ∃ met' walk', ProvenanceWalk.run db query maxWorkItems fuel walk = some walk' ∧
      Walked (recordedFrom db query) start met'.length met' ∧
      Simulates db query start met'.length met' walk' := by
  induction fuel generalizing done met walk with
  | zero =>
    have hlen := hwalked.length_le hnodes
    have hwithin := hwalked.within
    omega
  | succ fuel ih =>
    cases hget : met[done]? with
    | none =>
      have hlen : met.length = done :=
        le_antisymm (List.getElem?_eq_none_iff.mp hget) hwalked.within
      have hempty : walk.queue = [] := by
        rw [h.queue, List.drop_eq_nil_of_le hlen.le]
        rfl
      refine ⟨met, walk, ?_, hlen ▸ hwalked, hlen ▸ h⟩
      rw [ProvenanceWalk.run, hempty]
    | some m =>
      obtain ⟨route, id⟩ := m
      obtain ⟨hlt, hget'⟩ := List.getElem?_eq_some_iff.mp hget
      have hmem : (route, id) ∈ met := hget' ▸ List.getElem_mem hlt
      have hqueue : walk.queue = (id, lacks db query start route) ::
          queued db query start (met.drop (done + 1)) := by
        rw [h.queue, List.drop_eq_getElem_cons hlt, hget']
        rfl
      have hroom : walk.visited.length ≤ maxWorkItems := by
        rw [h.visited, List.length_map]
        exact (hwalked.length_le hnodes).trans hmax
      obtain ⟨met', walk', hrun, hwalked', h'⟩ :=
        ih (hwalked.step hget).2 (h.step hget (hwalked.valid _ hmem)) (by omega)
      refine ⟨met', walk', ?_, hwalked', h'⟩
      rw [ProvenanceWalk.run, hqueue]
      dsimp only
      rw [if_pos hroom]
      exact hrun

end Simulation

/-! ## 5. What is reported -/

section Reported

variable {db : HandoffDb V} {query : ProvenanceQuery V} {start : ℕ}

/-- A work item that can wait for a merge, other than the start. -/
def LiveContributor (db : HandoffDb V) (start id : ℕ) : Prop :=
  ∃ workItem, db.readWorkItem id = some workItem ∧ id ≠ start ∧
    workItem.mergeState ≠ some .merged ∧ workItem.status ≠ .canceled ∧ workItem.status ≠ .failed

/-- **The classification**: outstanding what lies behind a bare release, carried what is reached
through content alone. -/
def Classified (db : HandoffDb V) (query : ProvenanceQuery V) (start : ℕ)
    (answer : PathProvenance) : Prop :=
  ∀ id, LiveContributor db start id →
    (id ∈ answer.outstanding.map Prod.fst ↔ RecordChain db query start true id) ∧
    (id ∈ answer.carried.map Prod.fst ↔
      RecordChain db query start false id ∧ ¬ RecordChain db query start true id)

/-- **Where one flag a work item is enough**: whatever lies behind a release was released to a work
item of the chains, or is content of one whose first route takes a release. -/
def FlagsSettle (db : HandoffDb V) (query : ProvenanceQuery V) (start : ℕ) : Prop :=
  ∀ id, LiveContributor db start id → RecordChain db query start true id →
    (∃ released holder, RecordChain db query start released holder ∧
      ReleaseRecord db query holder id) ∨
    ∃ route holder, FirstRoute (recordedFrom db query) start route holder ∧
      lacks db query start route = true ∧ ContentRecord db query holder id

theorem fst_describe_live {allowFailed : Bool} {id : ℕ} {ids : List ℕ} :
    id ∈ ((ids.filterMap (liveWorkItem db start allowFailed)).map describeWorkItem).map Prod.fst ↔
      id ∈ ids ∧ liveWorkItem db start allowFailed id ≠ none := by
  have hid : ∀ {source : ℕ} {workItem : MergeWorkItem V},
      liveWorkItem db start allowFailed source = some workItem → workItem.id = source := by
    intro source workItem hlive
    unfold liveWorkItem at hlive
    split at hlive
    case isTrue => cases hlive
    case isFalse =>
      have hread := (Option.filter_eq_some_iff.mp hlive).1
      exact of_decide_eq_true (List.find?_some (p := fun workItem : MergeWorkItem V =>
        decide (workItem.id = source)) hread)
  simp only [List.mem_map, List.mem_filterMap]
  constructor
  · rintro ⟨entry, ⟨workItem, ⟨source, hmem, hlive⟩, rfl⟩, rfl⟩
    obtain rfl : workItem.id = source := hid hlive
    exact ⟨hmem, by rw [show (describeWorkItem workItem).1 = workItem.id from rfl, hlive]; simp⟩
  · rintro ⟨hmem, hlive⟩
    obtain ⟨workItem, hlive⟩ := Option.ne_none_iff_exists'.mp hlive
    exact ⟨_, ⟨workItem, ⟨id, hmem, hlive⟩, rfl⟩, hid hlive⟩

theorem LiveContributor.live {id : ℕ} (h : LiveContributor db start id) (allowFailed : Bool) :
    liveWorkItem db start allowFailed id ≠ none := by
  obtain ⟨workItem, hread, hne, hmerged, hcanceled, hfailed⟩ := h
  unfold liveWorkItem
  rw [if_neg hne, hread]
  simp [Option.filter, hmerged, hcanceled, hfailed]

theorem mem_outstanding_iff (walk : ProvenanceWalk) {id : ℕ} (h : LiveContributor db start id) :
    id ∈ (walk.finish db start).outstanding.map Prod.fst ↔ id ∈ walk.outstandingIds := by
  unfold ProvenanceWalk.finish
  dsimp only
  rw [fst_describe_live, List.mem_eraseDups]
  exact and_iff_left (h.live false)

theorem mem_carried_iff (walk : ProvenanceWalk) {id : ℕ} (h : LiveContributor db start id) :
    id ∈ (walk.finish db start).carried.map Prod.fst ↔
      id ∈ walk.carriedIds ∧ id ∉ walk.outstandingIds := by
  have hout := mem_outstanding_iff walk h
  unfold ProvenanceWalk.finish at hout ⊢
  dsimp only at hout ⊢
  rw [fst_describe_live, List.mem_filter, List.mem_eraseDups, decide_eq_true_eq, hout]
  exact and_iff_left (h.live true)

end Reported

/-! ## 6. When the answer is the classification -/

section Answer

variable {db : HandoffDb V} {query : ProvenanceQuery V} {start : ℕ}

/-- The notes of a walk that has ended, in terms of first routes. -/
structure Noted (db : HandoffDb V) (query : ProvenanceQuery V) (start : ℕ)
    (walk : ProvenanceWalk) : Prop where
  first : ∀ released holder, RecordChain db query start released holder →
    ∃ route, FirstRoute (recordedFrom db query) start route holder
  carried : ∀ id, id ∈ walk.carriedIds ↔ ∃ route holder,
    FirstRoute (recordedFrom db query) start route holder ∧
      lacks db query start route = false ∧ ContentRecord db query holder id
  outstanding : ∀ id, id ∈ walk.outstandingIds ↔ ∃ route holder,
    FirstRoute (recordedFrom db query) start route holder ∧
      (ReleaseRecord db query holder id ∨
        lacks db query start route = true ∧ ContentRecord db query holder id)

theorem Simulates.noted {met : List (List ℕ × ℕ)} {walk : ProvenanceWalk}
    (hwalked : Walked (recordedFrom db query) start met.length met)
    (h : Simulates db query start met.length met walk) : Noted db query start walk := by
  have hcarried := h.carried
  have houtstanding := h.outstanding
  rw [List.take_length] at hcarried houtstanding
  constructor
  · intro released holder hchain
    obtain ⟨route, hroute, -⟩ := recordChain_iff.mp hchain
    exact hwalked.exists_first hroute
  · intro id
    rw [hcarried]
    constructor
    · rintro ⟨⟨route, holder⟩, hm, hlacks, hmem⟩
      exact ⟨route, holder, hwalked.mem_iff.mp hm, hlacks, mem_carriedFrom.mp hmem⟩
    · rintro ⟨route, holder, hfirst, hlacks, hrecord⟩
      exact ⟨(route, holder), hwalked.mem_iff.mpr hfirst, hlacks, mem_carriedFrom.mpr hrecord⟩
  · intro id
    rw [houtstanding]
    constructor
    · rintro ⟨⟨route, holder⟩, hm, hmem⟩
      refine ⟨route, holder, hwalked.mem_iff.mp hm, ?_⟩
      exact hmem.imp mem_lackedFrom.mp fun hlack => ⟨hlack.1, mem_carriedFrom.mp hlack.2⟩
    · rintro ⟨route, holder, hfirst, hrecord⟩
      refine ⟨(route, holder), hwalked.mem_iff.mpr hfirst, ?_⟩
      exact hrecord.imp mem_lackedFrom.mpr fun hlack => ⟨hlack.1, mem_carriedFrom.mpr hlack.2⟩

/-- What is noted as outstanding lies behind a bare release. -/
theorem Noted.sound {walk : ProvenanceWalk} (h : Noted db query start walk) {id : ℕ}
    (hid : id ∈ walk.outstandingIds) : RecordChain db query start true id := by
  obtain ⟨route, holder, hfirst, hrecord⟩ := (h.outstanding id).mp hid
  have hchain : RecordChain db query start (lacks db query start route) holder :=
    recordChain_iff.mpr ⟨route, hfirst.1, rfl⟩
  rcases hrecord with hrelease | ⟨hlacks, hcontent⟩
  · exact hchain.release hrelease
  · rw [hlacks] at hchain
    exact hchain.content hcontent

/-- Whatever a chain reaches is noted. -/
theorem Noted.complete {walk : ProvenanceWalk} (h : Noted db query start walk) {released : Bool}
    {id : ℕ} (hchain : RecordChain db query start released id) (hne : id ≠ start) :
    id ∈ walk.outstandingIds ∨ id ∈ walk.carriedIds := by
  rw [h.outstanding, h.carried]
  cases hchain with
  | nil => exact absurd rfl hne
  | @content _ holder _ hholder hrecord =>
    obtain ⟨route, hfirst⟩ := h.first _ holder hholder
    cases hlacks : lacks db query start route with
    | false => exact Or.inr ⟨route, holder, hfirst, hlacks, hrecord⟩
    | true => exact Or.inl ⟨route, holder, hfirst, Or.inr ⟨hlacks, hrecord⟩⟩
  | @release _ holder _ hholder hrecord =>
    obtain ⟨route, hfirst⟩ := h.first _ holder hholder
    exact Or.inl ⟨route, holder, hfirst, Or.inl hrecord⟩

theorem Noted.classified_iff {walk : ProvenanceWalk} (h : Noted db query start walk) :
    Classified db query start (walk.finish db start) ↔ FlagsSettle db query start := by
  -- a live work item is noted as outstanding exactly where the flags settle for it
  have hnoted : ∀ id, id ∈ walk.outstandingIds ↔
      (∃ released holder, RecordChain db query start released holder ∧
        ReleaseRecord db query holder id) ∨
      ∃ route holder, FirstRoute (recordedFrom db query) start route holder ∧
        lacks db query start route = true ∧ ContentRecord db query holder id := by
    intro id
    rw [h.outstanding]
    constructor
    · rintro ⟨route, holder, hfirst, hrelease | hlack⟩
      · exact Or.inl ⟨_, holder, recordChain_iff.mpr ⟨route, hfirst.1, rfl⟩, hrelease⟩
      · exact Or.inr ⟨route, holder, hfirst, hlack⟩
    · rintro (⟨released, holder, hchain, hrelease⟩ | ⟨route, holder, hfirst, hlack⟩)
      · obtain ⟨route, hfirst⟩ := h.first released holder hchain
        exact ⟨route, holder, hfirst, Or.inl hrelease⟩
      · exact ⟨route, holder, hfirst, Or.inr hlack⟩
  constructor
  · intro hclassified id hlive hchain
    rw [← hnoted, ← mem_outstanding_iff walk hlive]
    exact (hclassified id hlive).1.mpr hchain
  · intro hsettle id hlive
    have houtstanding : id ∈ walk.outstandingIds ↔ RecordChain db query start true id :=
      ⟨h.sound, fun hchain => (hnoted id).mpr (hsettle id hlive hchain)⟩
    have hne : id ≠ start := by
      obtain ⟨_, -, hne, -⟩ := hlive
      exact hne
    rw [mem_outstanding_iff walk hlive, mem_carried_iff walk hlive, houtstanding]
    refine ⟨Iff.rfl, and_congr_left fun hnot => ⟨fun hcarried => ?_, fun hchain => ?_⟩⟩
    · obtain ⟨route, holder, hfirst, hlacks, hrecord⟩ := (h.carried id).mp hcarried
      have hchain : RecordChain db query start (lacks db query start route) holder :=
        recordChain_iff.mpr ⟨route, hfirst.1, rfl⟩
      rw [hlacks] at hchain
      exact hchain.content hrecord
    · exact (h.complete hchain hne).resolve_left fun hid => hnot (houtstanding.mp hid)

/-- No record overlaps an empty path. -/
theorem recordChain_of_no_path (hpath : query.targetPath = "") {released : Bool} {id : ℕ}
    (h : RecordChain db query start released id) : released = false ∧ id = start := by
  have hnone : ∀ path, repoPathsOverlap path query.targetPath = false := by
    intro path
    have hempty : normalizeCrossWiRepoPath "" = "" := by decide
    rw [hpath, repoPathsOverlap, hempty]
    simp
  cases h with
  | nil => exact ⟨rfl, rfl⟩
  | content _ hrecord =>
    rcases hrecord with ⟨_, _, entry, _, _, hover, _⟩ | ⟨dep, _, _, hover, _⟩
    · rw [hnone] at hover
      cases hover
    · rw [hnone] at hover
      cases hover
  | release _ hrecord =>
    obtain ⟨_, _, entry, _, hover, _⟩ := hrecord
    rw [hnone] at hover
    cases hover

/-- The records of two databases, and the work items they classify, are the same: one lists its job
rows and records in another order than the other. -/
structure SameRecords (db db' : HandoffDb V) (query : ProvenanceQuery V) (start : ℕ) : Prop where
  content : ∀ id source, ContentRecord db query id source ↔ ContentRecord db' query id source
  release : ∀ id source, ReleaseRecord db query id source ↔ ReleaseRecord db' query id source
  live : ∀ id, LiveContributor db start id ↔ LiveContributor db' start id

theorem SameRecords.symm {db' : HandoffDb V} (h : SameRecords db db' query start) :
    SameRecords db' db query start :=
  ⟨fun id source => (h.content id source).symm, fun id source => (h.release id source).symm,
    fun id => (h.live id).symm⟩

theorem SameRecords.chain {db' : HandoffDb V} (h : SameRecords db db' query start)
    {released : Bool} {id : ℕ} (hchain : RecordChain db query start released id) :
    RecordChain db' query start released id := by
  induction hchain with
  | nil => exact .nil
  | content _ hrecord ih => exact ih.content ((h.content _ _).mp hrecord)
  | release _ hrecord ih => exact ih.release ((h.release _ _).mp hrecord)

theorem SameRecords.chain_iff {db' : HandoffDb V} (h : SameRecords db db' query start)
    {released : Bool} {id : ℕ} :
    RecordChain db query start released id ↔ RecordChain db' query start released id :=
  ⟨h.chain, h.symm.chain⟩

/-- A set closed under the records holds all that chains reach. -/
theorem RecordChain.mem_of_closed {nodes : Finset ℕ} (hstart : start ∈ nodes)
    (hclosed : ∀ id ∈ nodes, ∀ source ∈ recordedFrom db query id, source ∈ nodes)
    (released : Bool) (id : ℕ) (h : RecordChain db query start released id) : id ∈ nodes := by
  induction h with
  | nil => exact hstart
  | content _ hrecord ih =>
    exact hclosed _ ih _ (List.mem_append_left _ (mem_carriedFrom.mpr hrecord))
  | release _ hrecord ih =>
    exact hclosed _ ih _ (List.mem_append_right _ (mem_lackedFrom.mpr hrecord))

end Answer

/-- **The classification of contributors.**  The loop ends, and its answer classifies the live work
items exactly where the flags settle; two orders of the same records in which they do get the same
answer. -/
theorem collectCrossWiPathProvenance_classified_iff (db : HandoffDb V) (query : ProvenanceQuery V)
    {start fuel maxWorkItems : ℕ} (nodes : Finset ℕ) (hstart : 0 < start)
    (hnodes : ∀ released id, RecordChain db query start released id → id ∈ nodes)
    (hmax : nodes.card ≤ maxWorkItems) (hfuel : nodes.card < fuel) :
    (∃ answer, collectCrossWiPathProvenance db query maxWorkItems fuel start = some answer ∧
      answer.complete = true ∧
      (Classified db query start answer ↔ FlagsSettle db query start)) ∧
    ∀ db' answer answer', SameRecords db db' query start →
      FlagsSettle db query start → FlagsSettle db' query start →
      collectCrossWiPathProvenance db query maxWorkItems fuel start = some answer →
      collectCrossWiPathProvenance db' query maxWorkItems fuel start = some answer' →
      ∀ id, LiveContributor db start id →
        (id ∈ answer.outstanding.map Prod.fst ↔ id ∈ answer'.outstanding.map Prod.fst) ∧
        (id ∈ answer.carried.map Prod.fst ↔ id ∈ answer'.carried.map Prod.fst) := by
  -- one database
  have hone : ∀ db : HandoffDb V,
      (∀ released id, RecordChain db query start released id → id ∈ nodes) →
      ∃ answer, collectCrossWiPathProvenance db query maxWorkItems fuel start = some answer ∧
        answer.complete = true ∧
        (Classified db query start answer ↔ FlagsSettle db query start) := by
    intro db hnodes
    unfold collectCrossWiPathProvenance
    by_cases hpath : query.targetPath = ""
    · refine ⟨⟨[], [], true⟩, if_pos (Or.inr hpath), rfl, ?_⟩
      have hnone : ∀ {released id}, LiveContributor db start id →
          ¬ RecordChain db query start released id := by
        rintro released id ⟨_, -, hne, -⟩ hchain
        exact hne (recordChain_of_no_path hpath hchain).2
      refine iff_of_true (fun id hlive => ?_) fun id hlive hchain => absurd hchain (hnone hlive)
      exact ⟨iff_of_false (by simp) (hnone hlive),
        iff_of_false (by simp) fun hchain => hnone hlive hchain.1⟩
    · rw [if_neg (by rintro (h | h); exacts [by omega, hpath h])]
      obtain ⟨met, walk, hrun, hwalked, hsim⟩ := simulates_run
        (fun route id hroute => hnodes _ id (recordChain_iff.mpr ⟨route, hroute, rfl⟩)) hmax
        (walked_start (recordedFrom db query) start) (simulates_start db query start) hfuel
      rw [hrun]
      refine ⟨walk.finish db start, rfl, ?_, (hsim.noted hwalked).classified_iff⟩
      have hqueue : walk.queue = [] := by
        rw [hsim.queue, List.drop_length]
        rfl
      unfold ProvenanceWalk.finish
      dsimp only
      rw [hqueue]
      rfl
  refine ⟨hone db hnodes, ?_⟩
  intro db' answer answer' hsame hsettle hsettle' hanswer hanswer' id hlive
  obtain ⟨_, hsome, -, hiff⟩ := hone db hnodes
  obtain ⟨_, hsome', -, hiff'⟩ := hone db' fun released id hchain =>
    hnodes released id (hsame.symm.chain hchain)
  obtain rfl := Option.some.inj (hanswer.symm.trans hsome)
  obtain rfl := Option.some.inj (hanswer'.symm.trans hsome')
  have hleft := hiff.mpr hsettle id hlive
  have hright := hiff'.mpr hsettle' id ((hsame.live id).mp hlive)
  rw [hleft.1, hleft.2, hright.1, hright.2, hsame.chain_iff, hsame.chain_iff]
  exact ⟨Iff.rfl, Iff.rfl⟩

/-- A work item that holds a sync of a path from the second work item, which also released the path
to it, and which has a sync of it from the third. -/
def syncedAndReleased : HandoffDb Unit where
  workItems := [⟨1, .queued, none, none, {}⟩, ⟨2, .queued, none, none, {}⟩,
    ⟨3, .queued, none, none, {}⟩]
  jobs := [(1, { applied := [{ path := "a.js", source := some 2 }]
                 releases := [{ path := "a.js", source := some 2 }] }),
    (2, { applied := [{ path := "a.js", source := some 3 }] })]

def queryOfPath (path : String) : ProvenanceQuery Unit :=
  { now := "", resetAtMs := fun _ => none, path := path }

theorem collectCrossWiPathProvenance_classified_iff_synced :
    ∃ answer, collectCrossWiPathProvenance syncedAndReleased (queryOfPath "a.js") 32 4 1 =
        some answer ∧ answer.complete = true ∧
      (Classified syncedAndReleased (queryOfPath "a.js") 1 answer ↔
        FlagsSettle syncedAndReleased (queryOfPath "a.js") 1) :=
  (collectCrossWiPathProvenance_classified_iff syncedAndReleased (queryOfPath "a.js")
    {1, 2, 3} (by decide) (RecordChain.mem_of_closed (by decide) (by decide +kernel))
    (by decide) (by decide)).1

/-- The third work item lies behind the release, and is reported as carried. -/
theorem syncedAndReleased_carried :
    ∃ answer, collectCrossWiPathProvenance syncedAndReleased (queryOfPath "a.js") 32 4 1 =
        some answer ∧ LiveContributor syncedAndReleased 1 3 ∧
      RecordChain syncedAndReleased (queryOfPath "a.js") 1 true 3 ∧
      3 ∉ answer.outstanding.map Prod.fst ∧ 3 ∈ answer.carried.map Prod.fst := by
  refine ⟨⟨[(3, none)], [(2, none)], true⟩, by decide +kernel, ?_, ?_, by decide, by decide⟩
  · exact ⟨⟨3, .queued, none, none, {}⟩, rfl, by decide, by decide, by decide, by decide⟩
  · have hrelease : ReleaseRecord syncedAndReleased (queryOfPath "a.js") 1 2 :=
      mem_lackedFrom.mp (by decide +kernel)
    have hcontent : ContentRecord syncedAndReleased (queryOfPath "a.js") 2 3 :=
      mem_carriedFrom.mp (by decide +kernel)
    exact (RecordChain.nil.release hrelease).content hcontent

end PosseClient
