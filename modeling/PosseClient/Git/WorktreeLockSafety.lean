/-
# A worktree lock is taken over only from a reclaimable owner

What a waiter has seen stays true: a file that carries the token of a handle is the file the handle
made, perhaps with its marker; a process seen dead and a thread seen exited do not come back; and a
token is issued once.  So the token and the `stat` that a removal checks again pin the file whose
owner was judged.

* `LockLater` is what no step undoes, `LockInv` what every step keeps.
* `worktree_lock_taken_over` reads from it who removes a lock file, and when two handles of a path
  are held.
-/
import PosseClient.Git.WorktreeLocks

namespace PosseClient

/-! ## 1. Owners that may be replaced -/

/-- What kind of owner a lock file has for a waiter: one that no age ends, its own thread without
the lock, another live process, or one it knows too little about. -/
inductive LockOwnerKind
  | guarded | idle | liveProcess | unknown
  deriving DecidableEq, Repr

def LockDecision.ownerKind (d : LockDecision) : LockOwnerKind :=
  if (d.metadata.bind (·.pid)).isSome ∧ d.ownerState = some true then
    if d.isOwnProcess = false then .liveProcess
    else if ownerTokenOf d.metadata = none ∨ d.isOwnThread = false ∨ d.isActive then .guarded
    else .idle
  else .unknown

/-- The age limit of a kind of owner. -/
def LockOwnerKind.ageLimit (staleMs : Option ℚ) : LockOwnerKind → Option ℚ
  | .guarded => none
  | .idle => staleMs
  | .liveProcess => staleMs.map (· * worktreeLockLivePidStaleMultiplier)
  | .unknown => staleMs

/-- The owner said that it has released the lock. -/
def LockDecision.ownerReleased (d : LockDecision) : Prop :=
  (d.metadata.bind (·.releasedAt)).isSome = true

/-- The owner's process was dead. -/
def LockDecision.ownerDead (d : LockDecision) : Prop := d.ownerState = some false

/-- The owner's thread, of the waiter's process, had exited. -/
def LockDecision.ownerExited (d : LockDecision) : Prop :=
  d.isOwnProcess = true ∧ d.hasExited = true

/-- The lock was older than the age limit of its kind of owner. -/
def LockDecision.pastAgeLimit (d : LockDecision) : Prop :=
  ∃ limit ∈ d.ownerKind.ageLimit d.staleMs,
    limit < d.nowMs - (d.metadata.bind (·.createdAt)).getD d.stat.mtimeMs

/-- The owner of a lock file may be replaced. -/
def LockDecision.Reclaimable (d : LockDecision) : Prop :=
  d.ownerReleased ∨ d.ownerDead ∨ d.ownerExited ∨ d.pastAgeLimit

theorem reclaimWorktreeLockByAge_some {d : LockDecision} {staleMs : Option ℚ} {reclaim : Reclaim}
    (h : reclaimWorktreeLockByAge d staleMs = some reclaim) :
    reclaim = (ownerTokenOf d.metadata, d.stat) ∧
      ∃ limit ∈ staleMs, limit < d.nowMs - (d.metadata.bind (·.createdAt)).getD d.stat.mtimeMs := by
  unfold reclaimWorktreeLockByAge at h
  dsimp only at h
  split_ifs at h with hreference hage hstale
  obtain ⟨limit, hlimit, hlt⟩ := (Option.any_eq_true _ _).mp hstale
  rw [decide_eq_true_iff] at hlt
  exact ⟨(Option.some.inj h).symm, limit, hlimit, hlt.2⟩

/-- **A waiter decides to reclaim only where the owner may be replaced.** -/
theorem shouldReclaim_some {d : LockDecision} {reclaim : Reclaim}
    (h : shouldReclaimParsedWorktreeLock d = some reclaim) :
    reclaim = (ownerTokenOf d.metadata, d.stat) ∧ d.Reclaimable := by
  unfold shouldReclaimParsedWorktreeLock at h
  dsimp only at h
  split_ifs at h with hreleased hdead hlive hown hexited hguarded
  · exact ⟨(Option.some.inj h).symm, Or.inl hreleased⟩
  · exact ⟨(Option.some.inj h).symm, Or.inr (Or.inl hdead)⟩
  · exact ⟨(Option.some.inj h).symm, Or.inr (Or.inr (Or.inl ⟨hown, hexited⟩))⟩
  · obtain ⟨hreclaim, hage⟩ := reclaimWorktreeLockByAge_some h
    have hkind : d.ownerKind = .idle := by
      unfold LockDecision.ownerKind
      rw [if_pos hlive, if_neg (by simp [hown]), if_neg hguarded]
    exact ⟨hreclaim, Or.inr (Or.inr (Or.inr (by rw [LockDecision.pastAgeLimit, hkind]; exact hage)))⟩
  · obtain ⟨hreclaim, hage⟩ := reclaimWorktreeLockByAge_some h
    have hkind : d.ownerKind = .liveProcess := by
      unfold LockDecision.ownerKind
      rw [if_pos hlive, if_pos (by simpa using hown)]
    exact ⟨hreclaim, Or.inr (Or.inr (Or.inr (by rw [LockDecision.pastAgeLimit, hkind]; exact hage)))⟩
  · obtain ⟨hreclaim, hage⟩ := reclaimWorktreeLockByAge_some h
    have hkind : d.ownerKind = .unknown := by
      unfold LockDecision.ownerKind
      rw [if_neg hlive]
    exact ⟨hreclaim, Or.inr (Or.inr (Or.inr (by rw [LockDecision.pastAgeLimit, hkind]; exact hage)))⟩

/-! ## 2. Removals and markers -/

theorem ownerTokenOf_some {metadata : Option LockMetadata} {token : String}
    (h : ownerTokenOf metadata = some token) :
    metadata.bind (·.ownerToken) = some token ∧ token ≠ "" := by
  obtain ⟨hsome, hne⟩ := Option.filter_eq_some_iff.mp h
  exact ⟨hsome, by simpa using hne⟩

theorem statMatchesExpected_some {file : LockFile} {expected : LockStat}
    (h : statMatchesExpected (some file) expected = true) : file.stat = expected := by
  obtain ⟨content, dev, ino, size, mtimeMs⟩ := file
  obtain ⟨dev', ino', size', mtimeMs'⟩ := expected
  simp only [statMatchesExpected, Option.any_some, decide_eq_true_iff] at h
  obtain ⟨rfl, rfl, rfl, rfl⟩ := h
  rfl

theorem rmLock_changes {file : Option LockFile} {outcome : TransitionOutcome}
    (h : (rmLock file outcome).1 ≠ file) : (rmLock file outcome).1 = none := by
  unfold rmLock at h ⊢
  split_ifs at h ⊢
  · rfl
  · exact absurd rfl h

/-- **A removal.**  It takes away only a file with the token it was given, or with none, and with
the `stat` it was given. -/
theorem removeLockIfOwner_changes {file : LockFile} {token : Option String} {allowUnowned : Bool}
    {expectedStat : Option LockStat} {outcome : TransitionOutcome}
    (h : (removeLockIfOwner (some file) token allowUnowned expectedStat outcome).1 ≠ some file) :
    (removeLockIfOwner (some file) token allowUnowned expectedStat outcome).1 = none ∧
      (∀ stat ∈ expectedStat, file.stat = stat) ∧
      ((∃ owner, token = some owner ∧ file.content.bind (·.ownerToken) = some owner) ∨
        (token = none ∧ file.token = none)) := by
  by_cases hbusy : outcome = .busy
  · exact absurd (by simp [removeLockIfOwner, hbusy]) h
  cases token with
  | some owner =>
    by_cases htoken : file.content.bind (·.ownerToken) = some owner
    swap
    · exact absurd (by simp [removeLockIfOwner, hbusy, htoken]) h
    by_cases hstat : expectedStat.any (fun stat => !statMatchesExpected (some file) stat) = true
    · exact absurd (by simp [removeLockIfOwner, hbusy, htoken, hstat]) h
    have hrm : removeLockIfOwner (some file) (some owner) allowUnowned expectedStat outcome =
        rmLock (some file) outcome := by
      simp [removeLockIfOwner, hbusy, htoken, hstat]
    rw [hrm] at h ⊢
    refine ⟨rmLock_changes h, fun stat hmem => ?_, Or.inl ⟨owner, rfl, htoken⟩⟩
    obtain rfl : expectedStat = some stat := hmem
    exact statMatchesExpected_some (by simpa using hstat)
  | none =>
    by_cases hallow : allowUnowned = true
    swap
    · exact absurd (by simp [removeLockIfOwner, hbusy, hallow]) h
    by_cases hstat : expectedStat.all (fun stat => !statMatchesExpected (some file) stat) = true
    · exact absurd (by simp [removeLockIfOwner, hbusy, hallow, hstat]) h
    by_cases howned : (ownerTokenOf file.content).isSome = true
    · exact absurd (by simp [removeLockIfOwner, hbusy, hallow, hstat, howned]) h
    have hrm : removeLockIfOwner (some file) none allowUnowned expectedStat outcome =
        rmLock (some file) outcome := by
      simp [removeLockIfOwner, hbusy, hallow, hstat, howned]
    rw [hrm] at h ⊢
    refine ⟨rmLock_changes h, fun stat hmem => ?_, Or.inr ⟨rfl, by simpa [LockFile.token] using howned⟩⟩
    obtain rfl : expectedStat = some stat := hmem
    exact statMatchesExpected_some (by simpa using hstat)

/-- Where there is no file, a removal leaves none. -/
theorem removeLockIfOwner_none (token : Option String) (allowUnowned : Bool)
    (expectedStat : Option LockStat) (outcome : TransitionOutcome) :
    (removeLockIfOwner none token allowUnowned expectedStat outcome).1 = none := by
  unfold removeLockIfOwner rmLock
  cases token <;> simp only <;> split_ifs <;> rfl

/-- What a removal leaves was there. -/
theorem removeLockIfOwner_of_some {file : Option LockFile} {left : LockFile} {token : Option String}
    {allowUnowned : Bool} {expectedStat : Option LockStat} {outcome : TransitionOutcome}
    (h : (removeLockIfOwner file token allowUnowned expectedStat outcome).1 = some left) :
    file = some left := by
  cases file with
  | none =>
    rw [removeLockIfOwner_none] at h
    cases h
  | some file =>
    by_contra hne
    have hne' : (removeLockIfOwner (some file) token allowUnowned expectedStat outcome).1 ≠
        some file := fun hsame => hne (by rw [← hsame, h])
    have hchanges := (removeLockIfOwner_changes hne').1
    rw [h] at hchanges
    cases hchanges

/-- **A marker.**  It changes only a file with its token, which it keeps or empties. -/
theorem writeReleasedMarker_cases (file : Option LockFile) (token : String) (pid threadId : ℤ)
    (nowMs : ℚ) (stat : LockStat) (outcome : TransitionOutcome) :
    (writeReleasedMarker file token pid threadId nowMs stat outcome).1 = file ∨
      ∃ old metadata, file = some old ∧ old.content = some metadata ∧
        metadata.ownerToken = some token ∧
        ((writeReleasedMarker file token pid threadId nowMs stat outcome).1 = some ⟨none, stat⟩ ∨
          (writeReleasedMarker file token pid threadId nowMs stat outcome).1 =
            some ⟨some { metadata with
              pid := metadata.pid.or (some pid), threadId := metadata.threadId.or (some threadId)
              createdAt := metadata.createdAt.or (some nowMs), releasedAt := some nowMs }, stat⟩) := by
  cases hfile : file with
  | none => exact Or.inl rfl
  | some old =>
    cases hcontent : old.content with
    | none => exact Or.inl (by simp [writeReleasedMarker, hcontent])
    | some metadata =>
      by_cases htoken : metadata.ownerToken = some token
      · cases outcome with
        | ok =>
          exact Or.inr ⟨old, metadata, rfl, hcontent, htoken,
            Or.inr (by simp [writeReleasedMarker, hcontent, htoken])⟩
        | busy => exact Or.inl (by simp [writeReleasedMarker, hcontent, htoken])
        | ioError emptied =>
          cases emptied with
          | false => exact Or.inl (by simp [writeReleasedMarker, hcontent, htoken])
          | true =>
            exact Or.inr ⟨old, metadata, rfl, hcontent, htoken,
              Or.inl (by simp [writeReleasedMarker, hcontent, htoken])⟩
      · exact Or.inl (by simp [writeReleasedMarker, hcontent, htoken])

/-! ## 3. What no step undoes -/

/-- Processes, threads and handles keep what they are; the dead stay dead, the exited exited and the
released released; and a handle that is new has a token that is new. -/
structure LockLater (w w' : LockWorld) : Prop where
  process : ∀ p < w.nextProcess, p < w'.nextProcess ∧ (w'.processes p).pid = (w.processes p).pid ∧
    ((w.processes p).alive = false → (w'.processes p).alive = false)
  thread : ∀ t < w.nextThread, t < w'.nextThread ∧
    (w'.threads t).process = (w.threads t).process ∧
    (w'.threads t).threadId = (w.threads t).threadId ∧
    (w'.threads t).lifetime = (w.threads t).lifetime ∧
    ((w.threads t).exited = true → (w'.threads t).exited = true)
  handle : ∀ h < w.nextHandle, h < w'.nextHandle ∧ (w'.handles h).path = (w.handles h).path ∧
    (w'.handles h).thread = (w.handles h).thread ∧ (w'.handles h).owner = (w.handles h).owner ∧
    ((w.handles h).released = true → (w'.handles h).released = true)
  fresh : ∀ h < w'.nextHandle, h < w.nextHandle ∨
    ∃ token, (w'.handles h).owner.ownerToken = some token ∧ token ∉ w.issued
  issued : ∀ token ∈ w.issued, token ∈ w'.issued
  decisions : ∀ d ∈ w.decisions, d ∈ w'.decisions

/-- Metadata seen at a path: with the token of a handle they are those of the handle's own file,
which only a release has marked. -/
def LockWorld.Seen (w : LockWorld) (path : String) (metadata : LockMetadata) : Prop :=
  (∀ token, metadata.ownerToken = some token → token ∈ w.issued) ∧
  ∀ h < w.nextHandle, metadata.ownerToken = (w.handles h).owner.ownerToken →
    (w.handles h).path = path ∧ (metadata = (w.handles h).owner ∨
      ((w.handles h).released = true ∧
        ∃ nowMs, metadata = { (w.handles h).owner with releasedAt := some nowMs }))

/-- The process of the handle with this token, if there is one, is dead. -/
def LockWorld.OwnerDead (w : LockWorld) (metadata : LockMetadata) : Prop :=
  ∀ h < w.nextHandle, metadata.ownerToken = (w.handles h).owner.ownerToken →
    (w.processes (w.threads (w.handles h).thread).process).alive = false

/-- The thread of the handle with this token, if there is one, has exited. -/
def LockWorld.OwnerExited (w : LockWorld) (metadata : LockMetadata) : Prop :=
  ∀ h < w.nextHandle, metadata.ownerToken = (w.handles h).owner.ownerToken →
    (w.threads (w.handles h).thread).exited = true

/-- What was seen when a waiter decided to reclaim is true. -/
structure LockWorld.DecisionOk (w : LockWorld) (d : LockDecision) : Prop where
  reclaims : (shouldReclaimParsedWorktreeLock d).isSome = true
  seen : ∀ metadata ∈ d.metadata, w.Seen d.path metadata
  dead : d.ownerDead → ∀ metadata ∈ d.metadata, w.OwnerDead metadata
  exited : d.ownerExited → ∀ metadata ∈ d.metadata, w.OwnerExited metadata

/-- What an attempt has seen is true. -/
def LockWorld.PhaseOk (w : LockWorld) (a : LockAttempt) : Prop :=
  a.thread < w.nextThread ∧ match a.phase with
    | .parsed _ metadata => ∀ m ∈ metadata, w.Seen a.path m
    | .probed _ metadata ownerState => (∀ m ∈ metadata, w.Seen a.path m) ∧
      (ownerState = some false → ∀ m ∈ metadata, w.OwnerDead m)
    | .reclaiming reclaim => ∃ d ∈ w.decisions, d.path = a.path ∧
      shouldReclaimParsedWorktreeLock d = some reclaim
    | _ => True

/-- A waiter has decided to reclaim the file of a handle. -/
def LockWorld.Overtaken (w : LockWorld) (h : ℕ) : Prop :=
  ∃ d ∈ w.decisions, d.path = (w.handles h).path ∧
    d.metadata.bind (·.ownerToken) = (w.handles h).owner.ownerToken

/-- The slot of a thread that runs is at its generation, and generations only grow. -/
structure LockThreads (w : LockWorld) : Prop where
  process : ∀ t < w.nextThread, (w.threads t).process < w.nextProcess
  lifetimes : ∀ t < w.nextThread, ∀ l ∈ (w.threads t).lifetime,
    l.registry = (w.threads t).process ∧ 0 < l.generation ∧
    l.generation ≤ |(w.processes (w.threads t).process).states l.slot| ∧
    ((w.threads t).exited = false →
      (w.processes (w.threads t).process).states l.slot = l.generation)
  one_thread : ∀ t < w.nextThread, ∀ u < w.nextThread, ∀ l ∈ (w.threads t).lifetime,
    l ∈ (w.threads u).lifetime → t = u

/-- The invariant: handles are what they were made as, files and waiters agree with them, and a held
handle has its file unless a waiter decided to reclaim it. -/
structure LockInv (w : LockWorld) : Prop extends LockThreads w where
  owner_thread : ∀ h < w.nextHandle, (w.handles h).thread < w.nextThread
  owner : ∀ h < w.nextHandle, ∃ token nowMs, token ≠ "" ∧ token ∈ w.issued ∧
    (w.handles h).owner = w.lockMetadata (w.handles h).thread token nowMs
  tokens : ∀ h < w.nextHandle, ∀ h' < w.nextHandle,
    (w.handles h).owner.ownerToken = (w.handles h').owner.ownerToken → h = h'
  files : ∀ path file, w.files path = some file → ∀ metadata ∈ file.content, w.Seen path metadata
  attempts : ∀ id a, w.attempts id = some a → w.PhaseOk a
  decisions : ∀ d ∈ w.decisions, w.DecisionOk d
  kept : ∀ h < w.nextHandle, (w.handles h).released = false →
    (∃ file, w.files (w.handles h).path = some file ∧ file.content = some (w.handles h).owner) ∨
      w.Overtaken h
  earlier : ∀ h < w.nextHandle, ∀ later < w.nextHandle, h < later →
    (w.handles h).path = (w.handles later).path → (w.handles h).released = false → w.Overtaken h

section Later

variable {w w' : LockWorld}

theorem LockLater.seen (hlater : LockLater w w') {path : String} {metadata : LockMetadata}
    (h : w.Seen path metadata) : w'.Seen path metadata := by
  refine ⟨fun token htoken => hlater.issued token (h.1 token htoken), fun n hn htoken => ?_⟩
  rcases hlater.fresh n hn with hold | ⟨token, hnew, hissued⟩
  · obtain ⟨-, hpath, -, howner, hreleased⟩ := hlater.handle n hold
    rw [howner] at htoken ⊢
    rw [hpath]
    obtain ⟨hp, hcases⟩ := h.2 n hold htoken
    exact ⟨hp, hcases.imp id (And.imp hreleased id)⟩
  · exact absurd (h.1 token (htoken.trans hnew)) hissued

theorem LockLater.ownerDead (hlater : LockLater w w') (h : LockInv w) {path : String}
    {metadata : LockMetadata} (hseen : w.Seen path metadata) (hdead : w.OwnerDead metadata) :
    w'.OwnerDead metadata := by
  intro n hn htoken
  rcases hlater.fresh n hn with hold | ⟨token, hnew, hissued⟩
  · obtain ⟨-, -, hthread, howner, -⟩ := hlater.handle n hold
    obtain ⟨-, hprocess, -⟩ := hlater.thread _ (h.owner_thread n hold)
    rw [howner] at htoken
    rw [hthread, hprocess]
    exact (hlater.process _ (h.process _ (h.owner_thread n hold))).2.2 (hdead n hold htoken)
  · exact absurd (hseen.1 token (htoken.trans hnew)) hissued

theorem LockLater.ownerExited (hlater : LockLater w w') (h : LockInv w) {path : String}
    {metadata : LockMetadata} (hseen : w.Seen path metadata) (hexited : w.OwnerExited metadata) :
    w'.OwnerExited metadata := by
  intro n hn htoken
  rcases hlater.fresh n hn with hold | ⟨token, hnew, hissued⟩
  · obtain ⟨-, -, hthread, howner, -⟩ := hlater.handle n hold
    rw [howner] at htoken
    rw [hthread]
    exact (hlater.thread _ (h.owner_thread n hold)).2.2.2.2 (hexited n hold htoken)
  · exact absurd (hseen.1 token (htoken.trans hnew)) hissued

theorem LockLater.decisionOk (hlater : LockLater w w') (h : LockInv w) {d : LockDecision}
    (hd : w.DecisionOk d) : w'.DecisionOk d :=
  ⟨hd.reclaims, fun m hm => hlater.seen (hd.seen m hm),
    fun hdead m hm => hlater.ownerDead h (hd.seen m hm) (hd.dead hdead m hm),
    fun hexited m hm => hlater.ownerExited h (hd.seen m hm) (hd.exited hexited m hm)⟩

theorem LockLater.phaseOk (hlater : LockLater w w') (h : LockInv w) {a : LockAttempt}
    (ha : w.PhaseOk a) : w'.PhaseOk a := by
  obtain ⟨hthread, hphase⟩ := ha
  refine ⟨(hlater.thread _ hthread).1, ?_⟩
  cases hcase : a.phase with
  | parsed stat metadata =>
    rw [hcase] at hphase
    exact fun m hm => hlater.seen (hphase m hm)
  | probed stat metadata ownerState =>
    rw [hcase] at hphase
    exact ⟨fun m hm => hlater.seen (hphase.1 m hm),
      fun hdead m hm => hlater.ownerDead h (hphase.1 m hm) (hphase.2 hdead m hm)⟩
  | reclaiming reclaim =>
    rw [hcase] at hphase
    obtain ⟨d, hd, hpath, hreclaim⟩ := hphase
    exact ⟨d, hlater.decisions d hd, hpath, hreclaim⟩
  | creating => trivial
  | contended => trivial
  | inspected stat => trivial
  | acquired handle => trivial
  | failed => trivial

theorem LockLater.overtaken (hlater : LockLater w w') {n : ℕ} (hn : n < w.nextHandle)
    (h : w.Overtaken n) : w'.Overtaken n := by
  obtain ⟨d, hd, hpath, htoken⟩ := h
  obtain ⟨-, hpath', -, howner, -⟩ := hlater.handle n hn
  exact ⟨d, hlater.decisions d hd, hpath.trans hpath'.symm, by rw [howner]; exact htoken⟩

theorem LockLater.lockMetadata (hlater : LockLater w w') (h : LockThreads w) {t : ℕ}
    (ht : t < w.nextThread) (token : String) (nowMs : ℚ) :
    w'.lockMetadata t token nowMs = w.lockMetadata t token nowMs := by
  obtain ⟨-, hprocess, hid, hlifetime, -⟩ := hlater.thread t ht
  obtain ⟨-, hpid, -⟩ := hlater.process _ (h.process t ht)
  simp only [LockWorld.lockMetadata, hprocess, hid, hlifetime, hpid]

/-- **A step that makes no handle.**  Files, attempts and decisions are old ones or agree with what
there is, and a held handle keeps its file or is overtaken. -/
theorem LockInv.of_later (h : LockInv w) (hlater : LockLater w w') (hthreads : LockThreads w')
    (hnext : w'.nextHandle = w.nextHandle)
    (hfiles : ∀ path file, w'.files path = some file → w.files path = some file ∨
      ∀ metadata ∈ file.content, w'.Seen path metadata)
    (hattempts : ∀ id a, w'.attempts id = some a → w.attempts id = some a ∨ w'.PhaseOk a)
    (hdecisions : ∀ d ∈ w'.decisions, d ∈ w.decisions ∨ w'.DecisionOk d)
    (hkept : ∀ n < w.nextHandle, (w'.handles n).released = false → ∀ file,
      w.files (w.handles n).path = some file → file.content = some (w.handles n).owner →
      w'.files (w.handles n).path = some file ∨ w'.Overtaken n) : LockInv w' := by
  have hreleased : ∀ n < w.nextHandle, (w'.handles n).released = false →
      (w.handles n).released = false := by
    intro n hn hno
    by_contra hyes
    rw [(hlater.handle n hn).2.2.2.2 (by simpa using hyes)] at hno
    cases hno
  refine ⟨hthreads, fun n hn => ?_, fun n hn => ?_, fun n hn m hm htoken => ?_,
    fun path file hfile metadata hmem => ?_, fun id a ha => ?_, fun d hd => ?_, fun n hn hno => ?_,
    fun n hn later hl hlt hpath hno => ?_⟩
  · rw [hnext] at hn
    rw [(hlater.handle n hn).2.2.1]
    exact (hlater.thread _ (h.owner_thread n hn)).1
  · rw [hnext] at hn
    obtain ⟨-, -, hthread, howner, -⟩ := hlater.handle n hn
    obtain ⟨token, nowMs, hne, hissued, hsame⟩ := h.owner n hn
    refine ⟨token, nowMs, hne, hlater.issued token hissued, ?_⟩
    rw [hthread, howner, hlater.lockMetadata h.toLockThreads (h.owner_thread n hn)]
    exact hsame
  · rw [hnext] at hn hm
    rw [(hlater.handle n hn).2.2.2.1, (hlater.handle m hm).2.2.2.1] at htoken
    exact h.tokens n hn m hm htoken
  · rcases hfiles path file hfile with hold | hnew
    · exact hlater.seen (h.files path file hold metadata hmem)
    · exact hnew metadata hmem
  · exact (hattempts id a ha).elim (fun hold => hlater.phaseOk h (h.attempts id a hold)) fun hnew => hnew
  · exact (hdecisions d hd).elim (fun hold => hlater.decisionOk h (h.decisions d hold)) fun hnew => hnew
  · rw [hnext] at hn
    obtain ⟨-, hpath, -, howner, -⟩ := hlater.handle n hn
    rcases h.kept n hn (hreleased n hn hno) with ⟨file, hfile, hcontent⟩ | hovertaken
    · refine (hkept n hn hno file hfile hcontent).imp (fun hsame => ⟨file, ?_, ?_⟩) id
      · rw [hpath]
        exact hsame
      · rw [howner]
        exact hcontent
    · exact Or.inr (hlater.overtaken hn hovertaken)
  · rw [hnext] at hn hl
    rw [(hlater.handle n hn).2.1, (hlater.handle later hl).2.1] at hpath
    exact hlater.overtaken hn (h.earlier n hn later hl hlt hpath (hreleased n hn hno))

end Later

/-! ## 4. Processes and threads -/

section World

variable {w w' : LockWorld}

/-- A step of the world beside the locks. -/
theorem LockInv.world (h : LockInv w) (hlater : LockLater w w') (hthreads : LockThreads w')
    (hfiles : w'.files = w.files) (hnext : w'.nextHandle = w.nextHandle) (hattempts : w'.attempts = w.attempts)
    (hdecisions : w'.decisions = w.decisions) : LockInv w' := by
  refine h.of_later hlater hthreads hnext (fun path file hfile => Or.inl ?_)
    (fun id a ha => Or.inl ?_) (fun d hd => Or.inl ?_) fun n _ _ file hfile _ => Or.inl ?_
  · exact hfiles ▸ hfile
  · exact hattempts ▸ ha
  · exact hdecisions ▸ hd
  · rw [hfiles]
    exact hfile

theorem LockInv.spawn (h : LockInv w) (pid : ℤ) : LockInv (worktreeLockStep w (.spawn pid)) := by
  change LockInv (if _ then _ else _)
  split_ifs
  swap
  · exact h
  have hold : ∀ p < w.nextProcess,
      Function.update w.processes w.nextProcess ({ pid := pid } : LockProcess) p = w.processes p :=
    fun p hp => Function.update_of_ne hp.ne _ _
  refine h.world ⟨fun p hp => ⟨hp.trans (Nat.lt_succ_self _), ?_, ?_⟩,
    fun t ht => ⟨ht, rfl, rfl, rfl, fun hyes => hyes⟩, fun n hn => ⟨hn, rfl, rfl, rfl, fun hyes => hyes⟩,
    fun n hn => Or.inl hn, fun _ hmem => hmem, fun _ hmem => hmem⟩
    ⟨fun t ht => (h.process t ht).trans (Nat.lt_succ_self _), fun t ht l hl => ?_, h.one_thread⟩
    rfl rfl rfl rfl
  · exact congrArg LockProcess.pid (hold p hp)
  · intro hdead
    exact (congrArg LockProcess.alive (hold p hp)).trans hdead
  · have hsame := congrArg LockProcess.states (hold _ (h.process t ht))
    obtain ⟨hregistry, hpos, hle, hruns⟩ := h.lifetimes t ht l hl
    rw [← hsame] at hle hruns
    exact ⟨hregistry, hpos, hle, hruns⟩

/-- The states of a registry as the only part of a process that threads depend on. -/
theorem LockThreads.of_states (h : LockThreads w) (hprocess : w'.nextProcess = w.nextProcess)
    (hnext : w'.nextThread = w.nextThread)
    (hthread : ∀ t, (w'.threads t).process = (w.threads t).process ∧
      (w'.threads t).lifetime = (w.threads t).lifetime ∧
      ((w.threads t).exited = true → (w'.threads t).exited = true))
    (hstates : ∀ p, (w'.processes p).states = (w.processes p).states) : LockThreads w' := by
  refine ⟨fun t ht => ?_, fun t ht l hl => ?_, fun t ht u hu l hl hl' => ?_⟩
  · rw [hprocess, (hthread t).1]
    exact h.process t (hnext ▸ ht)
  · obtain ⟨hp, hlife, hexited⟩ := hthread t
    rw [hlife] at hl
    rw [hp, hstates]
    obtain ⟨hregistry, hpos, hle, hruns⟩ := h.lifetimes t (hnext ▸ ht) l hl
    refine ⟨hregistry, hpos, hle, fun hno => hruns ?_⟩
    by_contra hyes
    rw [hexited (by simpa using hyes)] at hno
    cases hno
  · rw [(hthread t).2.1] at hl
    rw [(hthread u).2.1] at hl'
    exact h.one_thread t (hnext ▸ ht) u (hnext ▸ hu) l hl hl'

theorem LockInv.exit (h : LockInv w) (p : ℕ) : LockInv (worktreeLockStep w (.exit p)) := by
  have hcases : ∀ q, ((w.setProcess p { w.processes p with alive := false }).processes q).pid =
      (w.processes q).pid ∧
      ((w.processes q).alive = false →
        ((w.setProcess p { w.processes p with alive := false }).processes q).alive = false) ∧
      ((w.setProcess p { w.processes p with alive := false }).processes q).states =
        (w.processes q).states := by
    intro q
    by_cases hq : q = p
    · subst hq
      simp [LockWorld.setProcess]
    · simp [LockWorld.setProcess, hq]
  refine h.world ⟨fun q hq => ⟨hq, (hcases q).1, (hcases q).2.1⟩,
    fun t ht => ⟨ht, rfl, rfl, rfl, fun hyes => hyes⟩, fun n hn => ⟨hn, rfl, rfl, rfl, fun hyes => hyes⟩,
    fun n hn => Or.inl hn, fun _ hmem => hmem, fun _ hmem => hmem⟩ ?_ rfl rfl rfl rfl
  exact h.toLockThreads.of_states rfl rfl (fun t => ⟨rfl, rfl, fun hyes => hyes⟩)
    fun q => (hcases q).2.2

theorem LockInv.exitThread (h : LockInv w) (t : ℕ) :
    LockInv (worktreeLockStep w (.exitThread t)) := by
  have hcases : ∀ u, ((w.setThread t { w.threads t with exited := true }).threads u).process =
      (w.threads u).process ∧
      ((w.setThread t { w.threads t with exited := true }).threads u).threadId =
        (w.threads u).threadId ∧
      ((w.setThread t { w.threads t with exited := true }).threads u).lifetime =
        (w.threads u).lifetime ∧
      ((w.threads u).exited = true →
        ((w.setThread t { w.threads t with exited := true }).threads u).exited = true) := by
    intro u
    by_cases hu : u = t
    · subst hu
      simp [LockWorld.setThread]
    · simp [LockWorld.setThread, hu]
  refine h.world ⟨fun p hp => ⟨hp, rfl, fun hyes => hyes⟩, fun u hu => ⟨hu, hcases u⟩,
    fun n hn => ⟨hn, rfl, rfl, rfl, fun hyes => hyes⟩, fun n hn => Or.inl hn, fun _ hmem => hmem,
    fun _ hmem => hmem⟩ ?_ rfl rfl rfl rfl
  exact h.toLockThreads.of_states rfl rfl
    (fun u => ⟨(hcases u).1, (hcases u).2.2.1, (hcases u).2.2.2⟩) fun _ => rfl

/-- **A lifetime is retired.**  The threads that run have other ones. -/
theorem LockInv.retire (h : LockInv w) (t : ℕ) : LockInv (worktreeLockStep w (.retire t)) := by
  change LockInv (w.retire t)
  unfold LockWorld.retire
  dsimp only
  cases hlife : (w.threads t).lifetime with
  | none => exact h
  | some l =>
    dsimp only
    split_ifs with hready
    swap
    · exact h
    obtain ⟨ht, hexited, hstate⟩ := hready
    generalize hp : (w.threads t).process = p at hstate
    generalize hretired : LockProcess.mk (w.processes p).pid (w.processes p).alive
      (Function.update (w.processes p).states l.slot (-l.generation)) = retired
    have hslots : ∀ slot, retired.states slot =
        if slot = l.slot then -l.generation else (w.processes p).states slot := by
      intro slot
      rw [← hretired]
      exact Function.update_apply _ _ _ _
    have hsame : retired.pid = (w.processes p).pid ∧ retired.alive = (w.processes p).alive := by
      rw [← hretired]
      exact ⟨rfl, rfl⟩
    have hcases : ∀ q, ((w.setProcess p retired).processes q).pid = (w.processes q).pid ∧
        ((w.setProcess p retired).processes q).alive = (w.processes q).alive := by
      intro q
      by_cases hq : q = p
      · subst hq
        simp [LockWorld.setProcess, hsame]
      · simp [LockWorld.setProcess, hq]
    refine h.world ⟨fun q hq => ⟨hq, (hcases q).1, fun hdead => (hcases q).2.trans hdead⟩,
      fun u hu => ⟨hu, rfl, rfl, rfl, fun hyes => hyes⟩,
      fun n hn => ⟨hn, rfl, rfl, rfl, fun hyes => hyes⟩, fun n hn => Or.inl hn, fun _ hmem => hmem,
      fun _ hmem => hmem⟩ ⟨h.process, fun u hu k hk => ?_, h.one_thread⟩ rfl rfl rfl rfl
    obtain ⟨hregistry, hpos, hle, hruns⟩ := h.lifetimes u hu k hk
    refine ⟨hregistry, hpos, ?_⟩
    by_cases hq : (w.threads u).process = p ∧ k.slot = l.slot
    · obtain ⟨hq, hslot⟩ := hq
      rw [hq, hslot, hstate] at hle hruns
      have hnew : ((w.setProcess p retired).processes (w.threads u).process).states k.slot =
          -l.generation := by
        simp [LockWorld.setProcess, hq, hslots, hslot]
      refine ⟨?_, fun hno => ?_⟩
      · refine hle.trans (le_of_eq ?_)
        exact ((congrArg abs hnew).trans (abs_neg _)).symm
      -- it would be the thread that has exited
      obtain ⟨hregistry', -⟩ := h.lifetimes t ht l hlife
      have hsame : l = k := by
        have hgeneration := hruns hno
        obtain ⟨registry, slot, generation⟩ := l
        obtain ⟨registry', slot', generation'⟩ := k
        simp only at hgeneration hslot hregistry hregistry'
        simp only [Lifetime.mk.injEq]
        exact ⟨(hregistry'.trans hp).trans (hregistry.trans hq).symm, hslot.symm, hgeneration⟩
      have heq := h.one_thread u hu t ht k hk (hsame ▸ hlife)
      have hruns' : (w.threads u).exited = false := hno
      rw [heq, hexited] at hruns'
      cases hruns'
    · have hother : ((w.setProcess p retired).processes (w.threads u).process).states k.slot =
          (w.processes (w.threads u).process).states k.slot := by
        by_cases hq' : (w.threads u).process = p
        · have hslot : k.slot ≠ l.slot := fun hslot => hq ⟨hq', hslot⟩
          simp [LockWorld.setProcess, hq', hslots, hslot]
        · simp [LockWorld.setProcess, hq']
      rw [← hother] at hle hruns
      exact ⟨hle, hruns⟩

/-- A lifetime that is reserved is past every one of its slot. -/
theorem reserveLifetime_some {p : ℕ} {states : ℕ → ℤ} {slot : Option ℕ} {l : Lifetime}
    (h : reserveLifetime p states slot = some l) :
    l.registry = p ∧ l.generation = |states l.slot| + 1 ∧ states l.slot ≤ 0 := by
  unfold reserveLifetime at h
  obtain ⟨s, hs, rfl⟩ := Option.map_eq_some_iff.mp h
  obtain ⟨-, hfree⟩ := Option.filter_eq_some_iff.mp hs
  rw [decide_eq_true_iff] at hfree
  exact ⟨rfl, rfl, hfree.2.1⟩

/-- **A thread starts.**  Its lifetime is new. -/
theorem LockInv.startThread (h : LockInv w) (p : ℕ) (threadId : ℤ) (slot : Option ℕ) :
    LockInv (worktreeLockStep w (.startThread p threadId slot)) := by
  change LockInv (w.startThread p threadId slot)
  unfold LockWorld.startThread
  dsimp only
  split_ifs with hready
  swap
  · exact h
  obtain ⟨hp, -⟩ := hready
  generalize hlife : reserveLifetime p (w.processes p).states slot = lifetime
  -- the processes afterwards
  have hreserved : ∃ processes : ℕ → LockProcess,
      (∀ q, (processes q).pid = (w.processes q).pid ∧ (processes q).alive = (w.processes q).alive) ∧
      (∀ q s, (processes q).states s = (w.processes q).states s ∨
        ∃ l, lifetime = some l ∧ q = p ∧ s = l.slot ∧ (processes q).states s = l.generation) ∧
      (∀ l ∈ lifetime, (processes p).states l.slot = l.generation) ∧
      w.reserve p lifetime = { w with processes := processes } := by
    cases lifetime with
    | none => exact ⟨w.processes, fun _ => ⟨rfl, rfl⟩, fun _ _ => Or.inl rfl, by simp, rfl⟩
    | some l =>
      refine ⟨_, fun q => ?_, fun q s => ?_, fun k hk => ?_, rfl⟩
      · by_cases hq : q = p
        · subst hq
          simp
        · simp [hq]
      · by_cases hq : q = p
        · subst hq
          by_cases hs : s = l.slot
          · exact Or.inr ⟨l, rfl, rfl, hs, by simp [hs]⟩
          · exact Or.inl (by simp [hs])
        · exact Or.inl (by simp [hq])
      · obtain rfl : l = k := Option.some.inj hk
        simp
  obtain ⟨processes, hsame, hstates, hnew, hworld⟩ := hreserved
  rw [hworld]
  have hthread : ∀ t < w.nextThread, Function.update w.threads w.nextThread
      ({ process := p, threadId := threadId, lifetime := lifetime } : LockThread) t =
        w.threads t := fun t ht => Function.update_of_ne ht.ne _ _
  have hcases : ∀ t < w.nextThread + 1, t < w.nextThread ∨ t = w.nextThread := by omega
  have hbelow : ∀ l ∈ lifetime, l.registry = p ∧ l.generation = |(w.processes p).states l.slot| + 1 ∧
      (w.processes p).states l.slot ≤ 0 := fun l hl => reserveLifetime_some (hlife.trans hl)
  refine h.world ⟨fun q hq => ⟨hq, (hsame q).1, fun hdead => (hsame q).2.trans hdead⟩, fun t ht => ?_,
    fun n hn => ⟨hn, rfl, rfl, rfl, fun hyes => hyes⟩, fun n hn => Or.inl hn, fun _ hmem => hmem,
    fun _ hmem => hmem⟩ ⟨fun t ht => ?_, fun t ht l hl => ?_, fun t ht u hu l hl hl' => ?_⟩
    rfl rfl rfl rfl
  · change t < w.nextThread + 1 ∧ (Function.update w.threads w.nextThread _ t).process = _ ∧
      (Function.update w.threads w.nextThread _ t).threadId = _ ∧
      (Function.update w.threads w.nextThread _ t).lifetime = _ ∧
      (_ → (Function.update w.threads w.nextThread _ t).exited = _)
    rw [hthread t ht]
    exact ⟨ht.trans (Nat.lt_succ_self _), rfl, rfl, rfl, fun hyes => hyes⟩
  · change (Function.update w.threads w.nextThread _ t).process < w.nextProcess
    rcases hcases t ht with hlt | rfl
    · rw [hthread t hlt]
      exact h.process t hlt
    · rw [Function.update_self]
      exact hp
  · change l ∈ (Function.update w.threads w.nextThread _ t).lifetime at hl
    change l.registry = (Function.update w.threads w.nextThread _ t).process ∧ 0 < l.generation ∧
      l.generation ≤ |(processes (Function.update w.threads w.nextThread _ t).process).states l.slot| ∧
      ((Function.update w.threads w.nextThread _ t).exited = false →
        (processes (Function.update w.threads w.nextThread _ t).process).states l.slot = l.generation)
    rcases hcases t ht with hlt | rfl
    · rw [hthread t hlt] at hl ⊢
      obtain ⟨hregistry, hpos, hle, hruns⟩ := h.lifetimes t hlt l hl
      rcases hstates (w.threads t).process l.slot with hsame' | ⟨k, hk, hprocess, hslot, hstate⟩
      · rw [hsame']
        exact ⟨hregistry, hpos, hle, hruns⟩
      · obtain ⟨-, hgeneration, hfree⟩ := hbelow k hk
        rw [hprocess, hslot] at hle hruns
        rw [hstate]
        have habs := le_abs_self k.generation
        refine ⟨hregistry, hpos, by omega, fun hno => ?_⟩
        have hgeneration' := hruns hno
        omega
    · rw [Function.update_self] at hl ⊢
      obtain ⟨hregistry, hgeneration, -⟩ := hbelow l hl
      have hpos : 0 < l.generation := by
        rw [hgeneration]
        positivity
      change l.registry = p ∧ _ ∧ _ ≤ |(processes p).states l.slot| ∧
        (_ → (processes p).states l.slot = _)
      rw [hnew l hl]
      exact ⟨hregistry, hpos, le_abs_self _, fun _ => rfl⟩
  · change l ∈ (Function.update w.threads w.nextThread _ t).lifetime at hl
    change l ∈ (Function.update w.threads w.nextThread _ u).lifetime at hl'
    -- an old lifetime of the slot is not past its state
    have hold : ∀ v < w.nextThread, l ∈ (w.threads v).lifetime → l ∉ lifetime := by
      intro v hv hmem hmem'
      obtain ⟨hregistry, -, hle, -⟩ := h.lifetimes v hv l hmem
      obtain ⟨hregistry', hgeneration, -⟩ := hbelow l hmem'
      rw [← hregistry, hregistry'] at hle
      omega
    rcases hcases t ht with htlt | rfl
    · rw [hthread t htlt] at hl
      rcases hcases u hu with hult | rfl
      · rw [hthread u hult] at hl'
        exact h.one_thread t htlt u hult l hl hl'
      · rw [Function.update_self] at hl'
        exact absurd hl' (hold t htlt hl)
    · rw [Function.update_self] at hl
      rcases hcases u hu with hult | rfl
      · rw [hthread u hult] at hl'
        exact absurd hl (hold u hult hl')
      · rfl

end World

/-! ## 5. Attempts -/

section Attempts

variable {w : LockWorld} {id : ℕ} {a : LockAttempt}

/-- A step that changes files, attempts and decisions only. -/
theorem lockLater_of_files {w' : LockWorld} (hprocesses : w'.processes = w.processes)
    (hnextProcess : w'.nextProcess = w.nextProcess) (hthreads : w'.threads = w.threads)
    (hnextThread : w'.nextThread = w.nextThread) (hhandles : w'.handles = w.handles)
    (hnextHandle : w'.nextHandle = w.nextHandle) (hissued : w'.issued = w.issued)
    (hdecisions : ∀ d ∈ w.decisions, d ∈ w'.decisions) : LockLater w w' := by
  refine ⟨fun p hp => ?_, fun t ht => ?_, fun n hn => ?_, fun n hn => Or.inl (hnextHandle ▸ hn),
    fun token hmem => hissued ▸ hmem, hdecisions⟩
  · rw [hprocesses, hnextProcess]
    exact ⟨hp, rfl, fun hyes => hyes⟩
  · rw [hthreads, hnextThread]
    exact ⟨ht, rfl, rfl, rfl, fun hyes => hyes⟩
  · rw [hhandles, hnextHandle]
    exact ⟨hn, rfl, rfl, rfl, fun hyes => hyes⟩

theorem setPhase_attempts {phase : AcquirePhase} {n : ℕ} {b : LockAttempt}
    (h : (w.setPhase id a phase).attempts n = some b) :
    w.attempts n = some b ∨ b = { a with phase := phase } := by
  change Function.update w.attempts id _ n = some b at h
  by_cases hn : n = id
  · subst hn
    rw [Function.update_self] at h
    exact Or.inr (Option.some.inj h).symm
  · rw [Function.update_of_ne hn] at h
    exact Or.inl h

/-- An attempt goes on; nothing else changes. -/
theorem LockInv.setPhase (h : LockInv w) {phase : AcquirePhase}
    (hphase : w.PhaseOk { a with phase := phase }) : LockInv (w.setPhase id a phase) := by
  have hlater : LockLater w (w.setPhase id a phase) :=
    lockLater_of_files rfl rfl rfl rfl rfl rfl rfl fun _ hmem => hmem
  refine h.of_later hlater ⟨h.process, h.lifetimes, h.one_thread⟩ rfl (fun _ _ => Or.inl)
    (fun n b hb => (setPhase_attempts hb).imp (fun hold => hold) ?_) (fun _ => Or.inl)
    fun _ _ _ _ hfile _ => Or.inl hfile
  rintro rfl
  exact hphase

/-- What a phase says that nothing is known of. -/
theorem PhaseOk.of_thread (hthread : a.thread < w.nextThread) {phase : AcquirePhase}
    (hphase : phase = .creating ∨ phase = .contended ∨ phase = .failed ∨
      (∃ stat, phase = .inspected stat) ∨ ∃ n, phase = .acquired n) :
    w.PhaseOk { a with phase := phase } := by
  rcases hphase with rfl | rfl | rfl | ⟨stat, rfl⟩ | ⟨n, rfl⟩ <;> exact ⟨hthread, trivial⟩

/-- The owner's process lives where a process with its pid is found. -/
theorem isProcessAlive_false {pid : ℤ} {unclear : Bool}
    (h : w.isProcessAlive pid unclear = some false) {p : ℕ} (hp : p < w.nextProcess)
    (hpid : (w.processes p).pid = pid) : (w.processes p).alive = false := by
  by_contra halive
  have hany : (List.range w.nextProcess).any
      (fun q => (w.processes q).alive && Decidable.decide ((w.processes q).pid = pid)) = true :=
    List.any_eq_true.mpr ⟨p, List.mem_range.mpr hp, by simp [hpid, halive]⟩
  unfold LockWorld.isProcessAlive at h
  by_cases hpos : pid ≤ 0
  · rw [if_pos hpos] at h
    cases h
  · rw [if_neg hpos, if_pos hany] at h
    cases h

/-- **A probe.**  A process that does not live is the dead one of the handle. -/
theorem LockInv.ownerDead_of_probe (h : LockInv w) {path : String} {metadata : LockMetadata}
    (hseen : w.Seen path metadata) {unclear : Bool}
    (hdead : (metadata.pid.bind fun pid => w.isProcessAlive pid unclear) = some false) :
    w.OwnerDead metadata := by
  intro n hn htoken
  obtain ⟨pid, hpid, halive⟩ := Option.bind_eq_some_iff.mp hdead
  obtain ⟨token, nowMs, -, -, howner⟩ := h.owner n hn
  have hsame : metadata.pid = (w.handles n).owner.pid := by
    rcases (hseen.2 n hn htoken).2 with rfl | ⟨-, _, rfl⟩ <;> rfl
  rw [hpid, howner] at hsame
  exact isProcessAlive_false halive (h.process _ (h.owner_thread n hn)) (Option.some.inj hsame).symm

/-- **A lifetime that has ended** is that of a thread that has exited. -/
theorem LockInv.ownerExited_of_lifetime (h : LockInv w) {path : String} {metadata : LockMetadata}
    (hseen : w.Seen path metadata) {p : ℕ}
    (hexited : hasExited p (w.processes p).states metadata.lifetime = true) :
    w.OwnerExited metadata := by
  intro n hn htoken
  obtain ⟨token, nowMs, -, -, howner⟩ := h.owner n hn
  have hsame : metadata.lifetime = (w.handles n).owner.lifetime := by
    rcases (hseen.2 n hn htoken).2 with rfl | ⟨-, _, rfl⟩ <;> rfl
  rw [howner] at hsame
  obtain ⟨l, hl, hended⟩ := (Option.any_eq_true _ _).mp hexited
  rw [decide_eq_true_iff] at hended
  obtain ⟨hregistry, -, -, hended⟩ := hended
  obtain ⟨hregistry', hpos, -, hruns⟩ := h.lifetimes _ (h.owner_thread n hn) l (hsame.symm.trans hl)
  by_contra hno
  have hstate := hruns (by simpa using hno)
  rw [← hregistry', hregistry] at hstate
  rw [hstate, abs_of_pos hpos] at hended
  omega

theorem LockInv.onAttempt (h : LockInv w) (id : ℕ) (f : LockAttempt → LockWorld)
    (hf : ∀ a, w.attempts id = some a → LockInv (f a)) : LockInv (w.onAttempt id f) := by
  unfold LockWorld.onAttempt
  split
  · rename_i a ha
    split_ifs
    · exact hf a ha
    · exact h
  · exact h

theorem LockInv.acquire (h : LockInv w) (id t : ℕ) (path : String) (staleMs : Option ℚ) :
    LockInv (worktreeLockStep w (.acquire id t path staleMs)) := by
  change LockInv (if _ then _ else _)
  split_ifs with hready
  swap
  · exact h
  obtain ⟨-, hruns⟩ := hready
  have ht : t < w.nextThread := by
    simp only [LockWorld.runs, Bool.and_eq_true, decide_eq_true_iff] at hruns
    exact hruns.1.1
  exact h.setPhase (a := ⟨t, path, staleMs, .creating⟩) (PhaseOk.of_thread ht (Or.inl rfl))

theorem LockInv.stat (h : LockInv w) (id : ℕ) : LockInv (worktreeLockStep w (.stat id)) := by
  refine h.onAttempt id _ fun a ha => ?_
  have hthread := (h.attempts id a ha).1
  split_ifs
  · split
    · exact h.setPhase (PhaseOk.of_thread hthread (by simp))
    · exact h.setPhase (PhaseOk.of_thread hthread (by simp))
  · exact h

theorem LockInv.read (h : LockInv w) (id : ℕ) (torn : Bool) :
    LockInv (worktreeLockStep w (.read id torn)) := by
  refine h.onAttempt id _ fun a ha => ?_
  have hthread := (h.attempts id a ha).1
  split
  · refine h.setPhase ⟨hthread, fun m hm => ?_⟩
    split_ifs at hm
    · cases hm
    · obtain ⟨file, hfile, hcontent⟩ := Option.bind_eq_some_iff.mp hm
      exact h.files a.path file hfile m hcontent
  · exact h

theorem LockInv.probe (h : LockInv w) (id : ℕ) (unclear : Bool) :
    LockInv (worktreeLockStep w (.probe id unclear)) := by
  refine h.onAttempt id _ fun a ha => ?_
  obtain ⟨hthread, hphase⟩ := h.attempts id a ha
  split
  · rename_i stat metadata hcase
    rw [hcase] at hphase
    refine h.setPhase ⟨hthread, hphase, fun hdead m hm => ?_⟩
    obtain rfl : metadata = some m := hm
    exact h.ownerDead_of_probe (hphase m rfl) hdead
  · exact h

/-- **A decision.**  What it rests on is true. -/
theorem LockInv.decides (h : LockInv w) (id : ℕ) (nowMs : ℚ) :
    LockInv (worktreeLockStep w (.decide id nowMs)) := by
  refine h.onAttempt id _ fun a ha => ?_
  obtain ⟨hthread, hphase⟩ := h.attempts id a ha
  split
  swap
  · exact h
  rename_i stat metadata ownerState hcase
  rw [hcase] at hphase
  obtain ⟨hseen, hdead⟩ := hphase
  unfold LockWorld.decideReclaim
  split
  swap
  · exact h.setPhase (PhaseOk.of_thread hthread (by simp))
  rename_i reclaim hreclaim
  have hok : w.DecisionOk (w.lockDecision a stat metadata ownerState nowMs) := by
    refine ⟨by rw [hreclaim]; rfl, hseen, hdead, fun hexited m hm => ?_⟩
    obtain ⟨-, hended⟩ := hexited
    obtain rfl : metadata = some m := hm
    exact h.ownerExited_of_lifetime (hseen m rfl) hended
  have hlater : LockLater w { w.setPhase id a (.reclaiming reclaim) with
      decisions := w.lockDecision a stat metadata ownerState nowMs :: w.decisions } :=
    lockLater_of_files rfl rfl rfl rfl rfl rfl rfl fun _ hmem => List.mem_cons_of_mem _ hmem
  refine h.of_later hlater ⟨h.process, h.lifetimes, h.one_thread⟩ rfl (fun _ _ => Or.inl)
    (fun n b hb => (setPhase_attempts hb).imp (fun hold => hold) ?_) (fun d hd => ?_)
    fun _ _ _ _ hfile _ => Or.inl hfile
  · rintro rfl
    exact ⟨hthread, _, List.mem_cons_self, rfl, hreclaim⟩
  · rcases List.mem_cons.mp hd with rfl | hold
    · exact Or.inr (hlater.decisionOk h hok)
    · exact Or.inl hold

/-- **A removal of a waiter.**  The handle whose file is gone was judged. -/
theorem LockInv.remove (h : LockInv w) (id : ℕ) (outcome : TransitionOutcome) :
    LockInv (worktreeLockStep w (.remove id outcome)) := by
  refine h.onAttempt id _ fun a ha => ?_
  obtain ⟨hthread, hphase⟩ := h.attempts id a ha
  split
  swap
  · exact h
  rename_i token stat hcase
  rw [hcase] at hphase
  obtain ⟨d, hd, hpath, hreclaim⟩ := hphase
  dsimp only
  generalize hremoved : removeLockIfOwner (w.files a.path) token token.isNone (some stat) outcome =
    removed
  have hlater : LockLater w ((w.setFile a.path removed.1).setPhase id a .creating) :=
    lockLater_of_files rfl rfl rfl rfl rfl rfl rfl fun _ hmem => hmem
  refine h.of_later hlater ⟨h.process, h.lifetimes, h.one_thread⟩ rfl (fun path file hfile => ?_)
    (fun n b hb => (setPhase_attempts hb).imp (fun hold => hold) ?_) (fun _ => Or.inl)
    fun n hn _ file hfile hcontent => ?_
  · refine Or.inl ?_
    change Function.update w.files a.path removed.1 path = some file at hfile
    by_cases hsame : path = a.path
    · subst hsame
      rw [Function.update_self, ← hremoved] at hfile
      exact removeLockIfOwner_of_some hfile
    · rw [Function.update_of_ne hsame] at hfile
      exact hfile
  · rintro rfl
    exact PhaseOk.of_thread hthread (Or.inl rfl)
  · change Function.update w.files a.path removed.1 _ = some file ∨ _
    by_cases hsame : (w.handles n).path = a.path
    swap
    · rw [Function.update_of_ne hsame]
      exact Or.inl hfile
    rw [hsame, Function.update_self]
    by_cases hkept : removed.1 = some file
    · exact Or.inl hkept
    rw [hsame] at hfile
    rw [← hremoved, hfile] at hkept
    obtain ⟨-, -, howner | ⟨-, hunowned⟩⟩ := removeLockIfOwner_changes hkept
    · obtain ⟨owner, rfl, hfound⟩ := howner
      obtain ⟨hpair, -⟩ := shouldReclaim_some hreclaim
      have hdecided := (ownerTokenOf_some (congrArg Prod.fst hpair).symm).1
      refine Or.inr ⟨d, hd, hpath.trans hsame.symm, hdecided.trans ?_⟩
      rw [hcontent] at hfound
      exact hfound.symm
    · obtain ⟨owner, _, hne, -, howner⟩ := h.owner n hn
      rw [LockFile.token, hcontent, howner] at hunowned
      simp [ownerTokenOf, LockWorld.lockMetadata, hne] at hunowned

/-- **One handle more**, with its file at a path that had none. -/
theorem LockInv.created (h : LockInv w) (hthread : a.thread < w.nextThread) {token : String}
    (hne : token ≠ "") (hfresh : token ∉ w.issued) (hnone : w.files a.path = none) {nowMs : ℚ}
    {stat : LockStat} {w' : LockWorld} (hlater : LockLater w w') (hthreads : LockThreads w')
    (hfiles : w'.files = Function.update w.files a.path
      (some ⟨some (w.lockMetadata a.thread token nowMs), stat⟩))
    (hnew : w'.handles w.nextHandle = { path := a.path, thread := a.thread,
                                        owner := w.lockMetadata a.thread token nowMs })
    (hnext : w'.nextHandle = w.nextHandle + 1) (hissued : token ∈ w'.issued)
    (hattempts : ∀ id b, w'.attempts id = some b → w.attempts id = some b ∨ w'.PhaseOk b)
    (hdecisions : w'.decisions = w.decisions) : LockInv w' := by
  have hcases : ∀ n < w'.nextHandle, n < w.nextHandle ∨ n = w.nextHandle := by omega
  have hfile' : w'.files a.path = some ⟨some (w.lockMetadata a.thread token nowMs), stat⟩ := by
    rw [hfiles, Function.update_self]
  have htoken : ∀ n < w.nextHandle, (w.handles n).owner.ownerToken ≠ some token := by
    intro n hn hsame
    obtain ⟨owner, _, -, hmem, howner⟩ := h.owner n hn
    rw [howner] at hsame
    exact hfresh (Option.some.inj hsame ▸ hmem)
  -- a held handle of the path has lost its file
  have hovertaken : ∀ n < w.nextHandle, (w'.handles n).path = a.path →
      (w'.handles n).released = false → w'.Overtaken n := by
    intro n hn hpath hno
    obtain ⟨-, hpath', -, -, hreleased⟩ := hlater.handle n hn
    have hno' : (w.handles n).released = false := by
      by_contra hyes
      rw [hreleased (by simpa using hyes)] at hno
      cases hno
    refine hlater.overtaken hn ((h.kept n hn hno').resolve_left ?_)
    rintro ⟨file, hfile, -⟩
    rw [hpath'.symm.trans hpath, hnone] at hfile
    cases hfile
  refine ⟨hthreads, fun n hn => ?_, fun n hn => ?_, fun n hn m hm hsame => ?_,
    fun path file hfile metadata hmem => ?_, fun id b hb => ?_, fun d hd => ?_, fun n hn hno => ?_,
    fun n hn later hl hlt hpath hno => ?_⟩
  · rcases hcases n hn with hold | rfl
    · rw [(hlater.handle n hold).2.2.1]
      exact (hlater.thread _ (h.owner_thread n hold)).1
    · rw [hnew]
      exact (hlater.thread _ hthread).1
  · rcases hcases n hn with hold | rfl
    · obtain ⟨-, -, hthread', howner, -⟩ := hlater.handle n hold
      obtain ⟨owner, at', hne', hmem, hsame⟩ := h.owner n hold
      refine ⟨owner, at', hne', hlater.issued owner hmem, ?_⟩
      rw [hthread', howner, hlater.lockMetadata h.toLockThreads (h.owner_thread n hold)]
      exact hsame
    · refine ⟨token, nowMs, hne, hissued, ?_⟩
      rw [hnew, hlater.lockMetadata h.toLockThreads hthread]
  · rcases hcases n hn with hold | rfl
    · rw [(hlater.handle n hold).2.2.2.1] at hsame
      rcases hcases m hm with hold' | rfl
      · rw [(hlater.handle m hold').2.2.2.1] at hsame
        exact h.tokens n hold m hold' hsame
      · rw [hnew] at hsame
        exact absurd hsame (htoken n hold)
    · rw [hnew] at hsame
      rcases hcases m hm with hold' | rfl
      · rw [(hlater.handle m hold').2.2.2.1] at hsame
        exact absurd hsame.symm (htoken m hold')
      · rfl
  · by_cases hpath : path = a.path
    · rw [hpath, hfile'] at hfile
      obtain rfl := Option.some.inj hfile
      obtain rfl : w.lockMetadata a.thread token nowMs = metadata := Option.some.inj hmem
      refine ⟨fun owner howner => (Option.some.inj howner) ▸ hissued, fun n hn hsame => ?_⟩
      rcases hcases n hn with hold | rfl
      · rw [(hlater.handle n hold).2.2.2.1] at hsame
        exact absurd hsame.symm (htoken n hold)
      · rw [hnew]
        exact ⟨hpath.symm, Or.inl rfl⟩
    · rw [hfiles, Function.update_of_ne hpath] at hfile
      exact hlater.seen (h.files path file hfile metadata hmem)
  · exact (hattempts id b hb).elim (fun hold => hlater.phaseOk h (h.attempts id b hold)) fun hok => hok
  · rw [hdecisions] at hd
    exact hlater.decisionOk h (h.decisions d hd)
  · rcases hcases n hn with hold | rfl
    · by_cases hpath : (w'.handles n).path = a.path
      · exact Or.inr (hovertaken n hold hpath hno)
      obtain ⟨-, hpath', -, howner, hreleased⟩ := hlater.handle n hold
      have hno' : (w.handles n).released = false := by
        by_contra hyes
        rw [hreleased (by simpa using hyes)] at hno
        cases hno
      refine (h.kept n hold hno').imp ?_ (hlater.overtaken hold)
      rintro ⟨file, hfile, hcontent⟩
      refine ⟨file, ?_, by rw [howner]; exact hcontent⟩
      rw [hfiles, Function.update_of_ne hpath, hpath']
      exact hfile
    · rw [hnew]
      exact Or.inl ⟨_, hfile', rfl⟩
  · rcases hcases later hl with hold' | rfl
    · have hold : n < w.nextHandle := hlt.trans hold'
      obtain ⟨-, hpath', -, -, hreleased⟩ := hlater.handle n hold
      rw [hpath', (hlater.handle later hold').2.1] at hpath
      have hno' : (w.handles n).released = false := by
        by_contra hyes
        rw [hreleased (by simpa using hyes)] at hno
        cases hno
      exact hlater.overtaken hold (h.earlier n hold later hold' hlt hpath hno')
    · rw [hnew] at hpath
      exact hovertaken n hlt hpath hno

/-- **A lock is created.**  Its path had no file. -/
theorem LockInv.create (h : LockInv w) (id : ℕ) (token : String) (nowMs : ℚ) (stat : LockStat)
    (outcome : CreateOutcome) :
    LockInv (worktreeLockStep w (.create id token nowMs stat outcome)) := by
  refine h.onAttempt id _ fun a ha => ?_
  have hthread := (h.attempts id a ha).1
  split_ifs with hready
  swap
  · exact h
  obtain ⟨-, hne, hfresh⟩ := hready
  unfold LockWorld.createLockFile
  split_ifs with hcontended
  · exact h.setPhase (PhaseOk.of_thread hthread (by simp))
  have hnone : w.files a.path = none := by
    rw [not_or] at hcontended
    simpa using hcontended.1
  cases outcome with
  | busy => simp at hcontended
  | threw left =>
    dsimp only
    generalize hfile' : (if decide (CreateOutcome.threw left = .threw true) = true then
      some (⟨none, stat⟩ : LockFile) else none) = file'
    have hempty : ∀ file, file' = some file → file.content = none := by
      rintro file rfl
      split_ifs at hfile'
      rw [← Option.some.inj hfile']
    have hlater : LockLater w ((w.setFile a.path file').setPhase id a .failed) :=
      lockLater_of_files rfl rfl rfl rfl rfl rfl rfl fun _ hmem => hmem
    refine h.of_later hlater ⟨h.process, h.lifetimes, h.one_thread⟩ rfl (fun path file hfile => ?_)
      (fun n b hb => (setPhase_attempts hb).imp (fun hold => hold) ?_) (fun _ => Or.inl)
      fun n hn _ file hfile _ => Or.inl ?_
    · change Function.update w.files a.path file' path = some file at hfile
      by_cases hsame : path = a.path
      · subst hsame
        rw [Function.update_self] at hfile
        refine Or.inr fun m hm => ?_
        rw [hempty file hfile] at hm
        cases hm
      · rw [Function.update_of_ne hsame] at hfile
        exact Or.inl hfile
    · rintro rfl
      exact PhaseOk.of_thread hthread (by simp)
    · change Function.update w.files a.path file' _ = some file
      rw [Function.update_of_ne]
      · exact hfile
      · intro hsame
        change w.files (w.handles n).path = some file at hfile
        change (w.handles n).path = a.path at hsame
        rw [hsame, hnone] at hfile
        cases hfile
  | written =>
    dsimp only
    have hother : ∀ n < w.nextHandle, Function.update w.handles w.nextHandle
        ({ path := a.path, thread := a.thread,
           owner := w.lockMetadata a.thread token nowMs } : LockHandle) n = w.handles n :=
      fun n hn => Function.update_of_ne hn.ne _ _
    have hsame : ∀ t, (Function.update w.threads a.thread { w.threads a.thread with
        activeTokens := token :: (w.threads a.thread).activeTokens } t).process =
          (w.threads t).process ∧
        (Function.update w.threads a.thread { w.threads a.thread with
        activeTokens := token :: (w.threads a.thread).activeTokens } t).threadId =
          (w.threads t).threadId ∧
        (Function.update w.threads a.thread { w.threads a.thread with
        activeTokens := token :: (w.threads a.thread).activeTokens } t).lifetime =
          (w.threads t).lifetime ∧
        ((w.threads t).exited = true → (Function.update w.threads a.thread { w.threads a.thread with
        activeTokens := token :: (w.threads a.thread).activeTokens } t).exited = true) := by
      intro t
      by_cases ht : t = a.thread
      · subst ht
        simp
      · simp [ht]
    refine h.created (a := a) hthread hne hfresh hnone
      ⟨fun p hp => ⟨hp, rfl, fun hyes => hyes⟩, fun t ht => ⟨ht, hsame t⟩, fun n hn => ?_,
        fun n hn => ?_, fun _ hmem => List.mem_cons_of_mem _ hmem, fun _ hmem => hmem⟩
      (h.toLockThreads.of_states rfl rfl
        (fun t => ⟨(hsame t).1, (hsame t).2.2.1, (hsame t).2.2.2⟩) fun _ => rfl)
      rfl (Function.update_self _ _ _) rfl List.mem_cons_self (fun n b hb => ?_) rfl
    · refine ⟨hn.trans (Nat.lt_succ_self _), ?_⟩
      change (Function.update w.handles w.nextHandle _ n).path = _ ∧
        (Function.update w.handles w.nextHandle _ n).thread = _ ∧
        (Function.update w.handles w.nextHandle _ n).owner = _ ∧
        (_ → (Function.update w.handles w.nextHandle _ n).released = _)
      rw [hother n hn]
      exact ⟨rfl, rfl, rfl, fun hyes => hyes⟩
    · by_cases hlt : n < w.nextHandle
      · exact Or.inl hlt
      · have hlast : n = w.nextHandle := by
          change n < w.nextHandle + 1 at hn
          omega
        refine Or.inr ⟨token, ?_, hfresh⟩
        change (Function.update w.handles w.nextHandle _ n).owner.ownerToken = _
        rw [hlast, Function.update_self]
        rfl
    · refine (setPhase_attempts hb).imp (fun hold => hold) ?_
      rintro rfl
      exact ⟨hthread, trivial⟩

end Attempts

/-! ## 6. Releases -/

section Releases

variable {w : LockWorld} {n : ℕ}

theorem LockInv.onHandle (h : LockInv w) (n : ℕ) (f : LockHandle → LockWorld)
    (hf : n < w.nextHandle → LockInv (f (w.handles n))) : LockInv (w.onHandle n f) := by
  unfold LockWorld.onHandle
  split_ifs with hready
  · exact hf hready.1
  · exact h

/-- The first part of a release. -/
theorem LockInv.release (h : LockInv w) (n : ℕ) : LockInv (worktreeLockStep w (.release n)) := by
  refine h.onHandle n _ fun hn => ?_
  unfold LockWorld.release
  dsimp only
  split_ifs with hreleased
  · exact h
  have hhandle : ∀ m, (Function.update w.handles n { w.handles n with released := true } m).path =
      (w.handles m).path ∧
      (Function.update w.handles n { w.handles n with released := true } m).thread =
        (w.handles m).thread ∧
      (Function.update w.handles n { w.handles n with released := true } m).owner =
        (w.handles m).owner ∧
      ((w.handles m).released = true →
        (Function.update w.handles n { w.handles n with released := true } m).released = true) := by
    intro m
    by_cases hm : m = n
    · subst hm
      simp
    · simp [hm]
  generalize hactive : (w.threads (w.handles n).thread).activeTokens.filter
    ((w.handles n).owner.ownerToken != some ·) = active
  have hsame : ∀ t, (Function.update w.threads (w.handles n).thread
      { w.threads (w.handles n).thread with activeTokens := active } t).process =
        (w.threads t).process ∧
      (Function.update w.threads (w.handles n).thread
      { w.threads (w.handles n).thread with activeTokens := active } t).threadId =
        (w.threads t).threadId ∧
      (Function.update w.threads (w.handles n).thread
      { w.threads (w.handles n).thread with activeTokens := active } t).lifetime =
        (w.threads t).lifetime ∧
      ((w.threads t).exited = true → (Function.update w.threads (w.handles n).thread
      { w.threads (w.handles n).thread with activeTokens := active } t).exited = true) := by
    intro t
    by_cases ht : t = (w.handles n).thread
    · subst ht
      simp
    · simp [ht]
  refine h.of_later ⟨fun p hp => ⟨hp, rfl, fun hyes => hyes⟩, fun t ht => ⟨ht, hsame t⟩,
    fun m hm => ⟨hm, hhandle m⟩, fun m hm => Or.inl hm, fun _ hmem => hmem, fun _ hmem => hmem⟩
    (h.toLockThreads.of_states rfl rfl
      (fun t => ⟨(hsame t).1, (hsame t).2.2.1, (hsame t).2.2.2⟩) fun _ => rfl)
    rfl (fun _ _ => Or.inl) (fun _ _ => Or.inl) (fun _ => Or.inl) fun m hm _ file hfile _ => Or.inl ?_
  exact hfile

/-- A handle counts its attempts, and the file of its path changes where it carries its token. -/
theorem LockInv.afterRelease (h : LockInv w) (hn : n < w.nextHandle)
    (hreleased : (w.handles n).released = true) (file' : Option LockFile) (attempt : ℕ)
    (hfile : w.files (w.handles n).path = file' ∨ ∃ old, w.files (w.handles n).path = some old ∧
      old.content.bind (·.ownerToken) = (w.handles n).owner.ownerToken)
    (hseen : ∀ file, file' = some file → w.files (w.handles n).path = some file ∨
      ∀ metadata ∈ file.content, w.Seen (w.handles n).path metadata) :
    LockInv ((w.setFile (w.handles n).path file').setHandle n
      { w.handles n with attempt := attempt }) := by
  have hhandle : ∀ m, (Function.update w.handles n { w.handles n with attempt := attempt } m).path =
      (w.handles m).path ∧
      (Function.update w.handles n { w.handles n with attempt := attempt } m).thread =
        (w.handles m).thread ∧
      (Function.update w.handles n { w.handles n with attempt := attempt } m).owner =
        (w.handles m).owner ∧
      (Function.update w.handles n { w.handles n with attempt := attempt } m).released =
        (w.handles m).released := by
    intro m
    by_cases hm : m = n
    · subst hm
      simp
    · simp [hm]
  have hlater : LockLater w ((w.setFile (w.handles n).path file').setHandle n
      { w.handles n with attempt := attempt }) :=
    ⟨fun p hp => ⟨hp, rfl, fun hyes => hyes⟩, fun t ht => ⟨ht, rfl, rfl, rfl, fun hyes => hyes⟩,
      fun m hm => ⟨hm, (hhandle m).1, (hhandle m).2.1, (hhandle m).2.2.1,
        fun hyes => (hhandle m).2.2.2.trans hyes⟩,
      fun m hm => Or.inl hm, fun _ hmem => hmem, fun _ hmem => hmem⟩
  refine h.of_later hlater ⟨h.process, h.lifetimes, h.one_thread⟩ rfl (fun path file hpath => ?_)
    (fun _ _ => Or.inl) (fun _ => Or.inl) fun m hm hno file hold hcontent => Or.inl ?_
  · change Function.update w.files (w.handles n).path file' path = some file at hpath
    by_cases hsame : path = (w.handles n).path
    · subst hsame
      rw [Function.update_self] at hpath
      exact (hseen file hpath).imp (fun hkept => hkept) fun hok metadata hmem =>
        hlater.seen (hok metadata hmem)
    · rw [Function.update_of_ne hsame] at hpath
      exact Or.inl hpath
  · have hno' : (w.handles m).released = false := (hhandle m).2.2.2.symm.trans hno
    change Function.update w.files (w.handles n).path file' (w.handles m).path = some file
    by_cases hsame : (w.handles m).path = (w.handles n).path
    swap
    · rw [Function.update_of_ne hsame]
      exact hold
    rw [hsame, Function.update_self]
    rw [hsame] at hold
    rcases hfile with hkept | ⟨old, hold', htoken⟩
    · exact hkept.symm.trans hold
    · -- the file would be that of the released handle
      rw [hold'] at hold
      obtain rfl := Option.some.inj hold
      rw [hcontent] at htoken
      have heq := h.tokens m hm n hn htoken
      rw [heq, hreleased] at hno'
      cases hno'

/-- **A release removes no file but its own.** -/
theorem LockInv.releaseRemove (h : LockInv w) (n : ℕ) (outcome : TransitionOutcome) :
    LockInv (worktreeLockStep w (.releaseRemove n outcome)) := by
  change LockInv (w.onHandle n fun handle => w.releaseRemove n handle outcome)
  refine h.onHandle n _ fun hn => ?_
  unfold LockWorld.releaseRemove
  by_cases hready : (w.handles n).released = true ∧ (w.handles n).attempt < 5
  swap
  · rw [if_neg hready]
    exact h
  rw [if_pos hready]
  refine h.afterRelease hn hready.1 _ _ ?_ fun file hleft => Or.inl ?_
  · cases hfile : w.files (w.handles n).path with
    | none => exact Or.inl (removeLockIfOwner_none _ _ _ _).symm
    | some file =>
      by_cases hkept : (removeLockIfOwner (some file) (w.handles n).owner.ownerToken false none
          outcome).1 = some file
      · exact Or.inl hkept.symm
      · obtain ⟨-, -, howner | ⟨hnone, -⟩⟩ := removeLockIfOwner_changes hkept
        · obtain ⟨owner, howner, hfound⟩ := howner
          exact Or.inr ⟨file, rfl, hfound.trans howner.symm⟩
        · obtain ⟨owner, _, -, -, howner⟩ := h.owner n hn
          rw [howner] at hnone
          cases hnone
  · exact removeLockIfOwner_of_some hleft

/-- The marker of a release is that of its handle. -/
theorem LockInv.releaseMark (h : LockInv w) (n : ℕ) (nowMs : ℚ) (stat : LockStat)
    (outcome : TransitionOutcome) :
    LockInv (worktreeLockStep w (.releaseMark n nowMs stat outcome)) := by
  change LockInv (w.onHandle n fun handle => w.releaseMark n handle nowMs stat outcome)
  refine h.onHandle n _ fun hn => ?_
  unfold LockWorld.releaseMark
  split
  swap
  · exact h
  rename_i token htoken
  dsimp only
  split_ifs with hready
  swap
  · exact h
  generalize hpid : (w.processes (w.threads (w.handles n).thread).process).pid = pid
  generalize hid : (w.threads (w.handles n).thread).threadId = threadId
  have hcases := writeReleasedMarker_cases (w.files (w.handles n).path) token pid threadId nowMs stat
    outcome
  generalize writeReleasedMarker (w.files (w.handles n).path) token pid threadId nowMs stat
    outcome = marked at hcases
  refine h.afterRelease hn hready.1 _ _ ?_ fun file hfile => ?_
  · rcases hcases with hkept | ⟨old, metadata, hold, hcontent, howner, -⟩
    · exact Or.inl hkept.symm
    · refine Or.inr ⟨old, hold, ?_⟩
      rw [hcontent, htoken]
      exact howner
  · rcases hcases with hkept | ⟨old, metadata, hold, hcontent, howner, hempty | hmark⟩
    · exact Or.inl (hkept.symm.trans hfile)
    · rw [hempty] at hfile
      obtain rfl := Option.some.inj hfile
      exact Or.inr fun metadata hmem => by cases hmem
    · rw [hmark] at hfile
      obtain rfl := Option.some.inj hfile
      refine Or.inr fun metadata' hmem => ?_
      obtain rfl := Option.some.inj hmem
      have hseen := h.files _ old hold metadata hcontent
      obtain ⟨owner, madeAt, -, -, hmade⟩ := h.owner n hn
      -- the metadata were those of the handle, with all their fields
      have hfields : metadata = { (w.handles n).owner with releasedAt := metadata.releasedAt } := by
        rcases (hseen.2 n hn (howner.trans htoken.symm)).2 with hsame | ⟨-, at', hsame⟩ <;>
          rw [hsame]
      rw [hmade] at hfields
      have hmarked : ({ metadata with
          pid := metadata.pid.or (some pid), threadId := metadata.threadId.or (some threadId)
          createdAt := metadata.createdAt.or (some nowMs), releasedAt := some nowMs } :
          LockMetadata) = { (w.handles n).owner with releasedAt := some nowMs } := by
        rw [hmade, hfields]
        rfl
      rw [hmarked]
      refine ⟨fun token' htoken' => ?_, fun m hm hsame => ?_⟩
      · rw [hmade] at htoken'
        obtain ⟨owner', _, -, hissued, hmade'⟩ := h.owner n hn
        rw [hmade'] at hmade
        have hboth := congrArg LockMetadata.ownerToken hmade
        exact Option.some.inj (hboth.trans htoken') ▸ hissued
      · have heq := h.tokens n hn m hm hsame
        subst heq
        exact ⟨rfl, Or.inr ⟨hready.1, nowMs, rfl⟩⟩

/-- **The step.**  Every step keeps the invariant. -/
theorem LockInv.step (h : LockInv w) (op : WorktreeLockOp) : LockInv (worktreeLockStep w op) := by
  cases op with
  | spawn pid => exact h.spawn pid
  | exit p => exact h.exit p
  | startThread p threadId slot => exact h.startThread p threadId slot
  | exitThread t => exact h.exitThread t
  | retire t => exact h.retire t
  | acquire id t path staleMs => exact h.acquire id t path staleMs
  | create id token nowMs stat outcome => exact h.create id token nowMs stat outcome
  | stat id => exact h.stat id
  | read id torn => exact h.read id torn
  | probe id unclear => exact h.probe id unclear
  | decide id nowMs => exact h.decides id nowMs
  | remove id outcome => exact h.remove id outcome
  | giveUp id =>
    refine h.onAttempt id _ fun a ha => ?_
    split_ifs
    · exact h.setPhase (PhaseOk.of_thread (h.attempts id a ha).1 (by simp))
    · exact h
  | release n => exact h.release n
  | releaseRemove n outcome => exact h.releaseRemove n outcome
  | releaseMark n nowMs stat outcome => exact h.releaseMark n nowMs stat outcome

end Releases

/-! ## 7. Who removes a lock file -/

/-- The handle whose release a step is part of. -/
def WorktreeLockOp.releases : WorktreeLockOp → Option ℕ
  | .release n => some n
  | .releaseRemove n _ => some n
  | .releaseMark n _ _ _ => some n
  | _ => none

/-- Any files, from before or of other programs, whose tokens are never issued again; no thread has
started an acquisition. -/
structure LockWorld.Initial (w : LockWorld) : Prop where
  threads : w.nextThread = 0
  handles : w.nextHandle = 0
  attempts : ∀ id, w.attempts id = none
  decisions : w.decisions = []
  issued : ∀ path file metadata token, w.files path = some file → file.content = some metadata →
    metadata.ownerToken = some token → token ∈ w.issued

section Files

variable {w : LockWorld}

theorem lockInv_initial (h : w.Initial) : LockInv w := by
  have hthread : ∀ t, ¬ t < w.nextThread := by simp [h.threads]
  have hhandle : ∀ n, ¬ n < w.nextHandle := by simp [h.handles]
  refine ⟨⟨fun t ht => absurd ht (hthread t), fun t ht => absurd ht (hthread t),
    fun t ht => absurd ht (hthread t)⟩, fun n hn => absurd hn (hhandle n),
    fun n hn => absurd hn (hhandle n), fun n hn => absurd hn (hhandle n),
    fun path file hfile m hm => ⟨fun token htoken => h.issued path file m token hfile hm htoken,
      fun n hn => absurd hn (hhandle n)⟩, fun id a ha => ?_, fun d hd => ?_,
    fun n hn => absurd hn (hhandle n), fun n hn => absurd hn (hhandle n)⟩
  · rw [h.attempts id] at ha
    cases ha
  · rw [h.decisions] at hd
    cases hd

theorem onAttempt_files {id : ℕ} {f : LockAttempt → LockWorld} (path : String)
    (hf : ∀ a, w.attempts id = some a → (f a).files path = w.files path) :
    (w.onAttempt id f).files path = w.files path := by
  unfold LockWorld.onAttempt
  split
  · rename_i a ha
    split_ifs
    · exact hf a ha
    · rfl
  · rfl

/-- **A file changes** through a release of the handle with its token, or through a removal of a
waiter that has judged it. -/
theorem LockInv.file_changes (h : LockInv w) {op : WorktreeLockOp} {path : String} {file : LockFile}
    (hfile : w.files path = some file) (hgone : (worktreeLockStep w op).files path ≠ some file) :
    (∃ n < w.nextHandle, op.releases = some n ∧ (w.handles n).released = true ∧
      (w.handles n).path = path ∧
      file.content.bind (·.ownerToken) = (w.handles n).owner.ownerToken) ∨
    ((worktreeLockStep w op).files path = none ∧ ∃ id outcome, op = .remove id outcome ∧
      ∃ d ∈ w.decisions, d.path = path ∧ ownerTokenOf d.metadata = file.token ∧
        d.stat = file.stat ∧ d.Reclaimable) := by
  have hsame : (worktreeLockStep w op).files path ≠ w.files path := by rwa [hfile]
  cases op with
  | spawn pid =>
    refine absurd ?_ hsame
    change (if _ then _ else _ : LockWorld).files path = _
    split_ifs <;> rfl
  | exit p => exact absurd rfl hsame
  | startThread p threadId slot =>
    refine absurd ?_ hsame
    change (w.startThread p threadId slot).files path = _
    unfold LockWorld.startThread LockWorld.reserve
    dsimp only
    split_ifs
    · cases reserveLifetime p (w.processes p).states slot <;> rfl
    · rfl
  | exitThread t => exact absurd rfl hsame
  | retire t =>
    refine absurd ?_ hsame
    change (w.retire t).files path = _
    unfold LockWorld.retire
    dsimp only
    split
    · split_ifs <;> rfl
    · rfl
  | acquire id t at' staleMs =>
    refine absurd ?_ hsame
    change (if _ then _ else _ : LockWorld).files path = _
    split_ifs <;> rfl
  | create id token nowMs stat outcome =>
    refine absurd (onAttempt_files path fun a ha => ?_) hsame
    split_ifs
    swap
    · rfl
    unfold LockWorld.createLockFile
    split_ifs with hcontended
    · rfl
    have hne : path ≠ a.path := by
      rintro rfl
      simp [hfile] at hcontended
    cases outcome with
    | busy => simp at hcontended
    | threw left => exact Function.update_of_ne hne _ _
    | written => exact Function.update_of_ne hne _ _
  | stat id =>
    refine absurd (onAttempt_files path fun a ha => ?_) hsame
    split_ifs
    · split <;> rfl
    · rfl
  | read id torn =>
    refine absurd (onAttempt_files path fun a ha => ?_) hsame
    split <;> rfl
  | probe id unclear =>
    refine absurd (onAttempt_files path fun a ha => ?_) hsame
    split <;> rfl
  | decide id nowMs =>
    refine absurd (onAttempt_files path fun a ha => ?_) hsame
    split
    · unfold LockWorld.decideReclaim
      split <;> rfl
    · rfl
  | giveUp id =>
    refine absurd (onAttempt_files path fun a ha => ?_) hsame
    split_ifs <;> rfl
  | remove id outcome =>
    refine Or.inr ?_
    change (w.onAttempt id _).files path ≠ _ at hgone
    change (w.onAttempt id _).files path = none ∧ _
    unfold LockWorld.onAttempt at hgone ⊢
    cases ha : w.attempts id with
    | none =>
      rw [ha] at hgone
      exact absurd hfile hgone
    | some a =>
      rw [ha] at hgone
      dsimp only at hgone ⊢
      by_cases hruns : w.runs a.thread = true
      swap
      · rw [if_neg hruns] at hgone
        exact absurd hfile hgone
      rw [if_pos hruns] at hgone ⊢
      obtain ⟨-, hphase⟩ := h.attempts id a ha
      cases hcase : a.phase with
      | reclaiming reclaim =>
        obtain ⟨token, stat⟩ := reclaim
        rw [hcase] at hgone hphase
        obtain ⟨d, hd, hpath, hreclaim⟩ := hphase
        change Function.update w.files a.path _ path ≠ _ at hgone
        change Function.update w.files a.path _ path = none ∧ _
        by_cases hsame' : path = a.path
        swap
        · rw [Function.update_of_ne hsame'] at hgone
          exact absurd hfile hgone
        subst hsame'
        rw [Function.update_self, hfile] at hgone
        rw [Function.update_self, hfile]
        obtain ⟨hnone, hstat, hcases⟩ := removeLockIfOwner_changes hgone
        obtain ⟨hpair, hreclaimable⟩ := shouldReclaim_some hreclaim
        have htoken : token = ownerTokenOf d.metadata := congrArg Prod.fst hpair
        have hstat' : stat = d.stat := congrArg Prod.snd hpair
        refine ⟨hnone, id, outcome, rfl, d, hd, hpath, ?_, hstat'.symm.trans (hstat stat rfl).symm,
          hreclaimable⟩
        rw [← htoken]
        rcases hcases with ⟨owner, rfl, hfound⟩ | ⟨rfl, hunowned⟩
        · have hne := (ownerTokenOf_some htoken.symm).2
          rw [LockFile.token, ownerTokenOf, hfound]
          exact (Option.filter_eq_some_iff.mpr ⟨rfl, by simpa using hne⟩).symm
        · exact hunowned.symm
      | _ =>
        rw [hcase] at hgone
        exact absurd hfile hgone
  | release n =>
    refine absurd ?_ hsame
    change (w.onHandle n _).files path = _
    unfold LockWorld.onHandle LockWorld.release
    split_ifs <;> rfl
  | releaseRemove n outcome =>
    refine Or.inl ?_
    change (w.onHandle n fun handle => w.releaseRemove n handle outcome).files path ≠ _ at hgone
    unfold LockWorld.onHandle LockWorld.releaseRemove at hgone
    by_cases hn : n < w.nextHandle ∧ w.runs (w.handles n).thread = true
    swap
    · rw [if_neg hn] at hgone
      exact absurd hfile hgone
    rw [if_pos hn] at hgone
    dsimp only at hgone
    by_cases hready : (w.handles n).released = true ∧ (w.handles n).attempt < 5
    swap
    · rw [if_neg hready] at hgone
      exact absurd hfile hgone
    rw [if_pos hready] at hgone
    change Function.update w.files (w.handles n).path _ path ≠ _ at hgone
    by_cases hpath : path = (w.handles n).path
    swap
    · rw [Function.update_of_ne hpath] at hgone
      exact absurd hfile hgone
    refine ⟨n, hn.1, rfl, hready.1, hpath.symm, ?_⟩
    subst hpath
    rw [Function.update_self, hfile] at hgone
    obtain ⟨-, -, ⟨owner, howner, hfound⟩ | ⟨hnone, -⟩⟩ := removeLockIfOwner_changes hgone
    · exact hfound.trans howner.symm
    · obtain ⟨owner, _, -, -, howner⟩ := h.owner n hn.1
      rw [howner] at hnone
      cases hnone
  | releaseMark n nowMs stat outcome =>
    refine Or.inl ?_
    change (w.onHandle n fun handle => w.releaseMark n handle nowMs stat outcome).files path ≠ _
      at hgone
    unfold LockWorld.onHandle LockWorld.releaseMark at hgone
    by_cases hn : n < w.nextHandle ∧ w.runs (w.handles n).thread = true
    swap
    · rw [if_neg hn] at hgone
      exact absurd hfile hgone
    rw [if_pos hn] at hgone
    obtain ⟨owner, madeAt, -, -, howner⟩ := h.owner n hn.1
    have htoken : (w.handles n).owner.ownerToken = some owner := by
      rw [howner]
      rfl
    dsimp only at hgone
    rw [htoken] at hgone
    dsimp only at hgone
    by_cases hready : (w.handles n).released = true ∧ (w.handles n).attempt = 5
    swap
    · rw [if_neg hready] at hgone
      exact absurd hfile hgone
    rw [if_pos hready] at hgone
    change Function.update w.files (w.handles n).path _ path ≠ _ at hgone
    by_cases hpath : path = (w.handles n).path
    swap
    · rw [Function.update_of_ne hpath] at hgone
      exact absurd hfile hgone
    refine ⟨n, hn.1, rfl, hready.1, hpath.symm, ?_⟩
    subst hpath
    rw [Function.update_self] at hgone
    rcases writeReleasedMarker_cases (w.files (w.handles n).path) owner
      (w.processes (w.threads (w.handles n).thread).process).pid
      (w.threads (w.handles n).thread).threadId nowMs stat outcome with
      hkept | ⟨old, metadata, hold, hcontent, hfound, -⟩
    · exact absurd (hkept.trans hfile) hgone
    · rw [hfile] at hold
      obtain rfl := Option.some.inj hold
      rw [hcontent, htoken]
      exact hfound

end Files

/-- The world after a run. -/
theorem lockInv_run {w : LockWorld} (h : LockInv w) (ops : List WorktreeLockOp) :
    LockInv (Runs.run worktreeLockStep w ops) := by
  have hstep : ∀ v op, LockInv v → LockInv (worktreeLockStep v op) := fun _ op hinv => hinv.step op
  exact Runs.run_invariant_of_forall hstep h

/-- **A worktree lock is taken over only from a reclaimable owner.**  After every run, of any number
of processes and threads, and for every next step: a lock file that carries a token goes only through
a release of the handle with this token, or through a waiter that has seen metadata with this token
at this path, and the `stat` the file still has, and judged the owner released, dead, exited or past
its age limit; what was seen of the owner is true of the handle with the token; of two handles of a
path that are held at once the earlier one was judged so; and no release changes a file with another
token. -/
theorem worktree_lock_taken_over {start : LockWorld} (hstart : start.Initial)
    (ops : List WorktreeLockOp) (op : WorktreeLockOp) :
    let w := Runs.run worktreeLockStep start ops
    let w' := worktreeLockStep w op
    (∀ path file token, w.files path = some file → file.token = some token →
      w'.files path ≠ some file →
      (∃ n < w.nextHandle, op.releases = some n ∧ (w.handles n).released = true ∧
        (w.handles n).path = path ∧ (w.handles n).owner.ownerToken = some token) ∨
      (w'.files path = none ∧ ∃ id outcome, op = .remove id outcome ∧
        ∃ d ∈ w.decisions, d.path = path ∧ ownerTokenOf d.metadata = some token ∧
          d.stat = file.stat ∧ d.Reclaimable)) ∧
    (∀ d ∈ w.decisions, ∀ n < w.nextHandle,
      ownerTokenOf d.metadata = (w.handles n).owner.ownerToken →
      d.path = (w.handles n).path ∧
      d.metadata.bind (·.createdAt) = (w.handles n).owner.createdAt ∧
      (d.ownerReleased → (w.handles n).released = true) ∧
      (d.ownerDead → (w.processes (w.threads (w.handles n).thread).process).alive = false) ∧
      (d.ownerExited → (w.threads (w.handles n).thread).exited = true)) ∧
    (∀ n < w.nextHandle, ∀ later < w.nextHandle, n < later →
      (w.handles n).path = (w.handles later).path → (w.handles n).released = false →
      (w.handles later).released = false →
      ∃ d ∈ w.decisions, d.path = (w.handles n).path ∧
        ownerTokenOf d.metadata = (w.handles n).owner.ownerToken ∧
        (d.ownerDead ∨ d.ownerExited ∨ d.pastAgeLimit)) ∧
    (∀ n path file, op.releases = some n → w.files path = some file →
      file.token ≠ (w.handles n).owner.ownerToken → w'.files path = some file) := by
  intro w w'
  have h : LockInv w := lockInv_run (lockInv_initial hstart) ops
  -- a token of a handle is never empty
  have hcarries : ∀ n < w.nextHandle, ∀ metadata : Option LockMetadata,
      metadata.bind (·.ownerToken) = (w.handles n).owner.ownerToken →
        ownerTokenOf metadata = (w.handles n).owner.ownerToken := by
    intro n hn metadata hsame
    obtain ⟨owner, _, hne, -, howner⟩ := h.owner n hn
    rw [ownerTokenOf, hsame, howner]
    simp [LockWorld.lockMetadata, hne]
  have htrue : ∀ d ∈ w.decisions, ∀ n < w.nextHandle,
      ownerTokenOf d.metadata = (w.handles n).owner.ownerToken →
      d.path = (w.handles n).path ∧
      d.metadata.bind (·.createdAt) = (w.handles n).owner.createdAt ∧
      (d.ownerReleased → (w.handles n).released = true) ∧
      (d.ownerDead → (w.processes (w.threads (w.handles n).thread).process).alive = false) ∧
      (d.ownerExited → (w.threads (w.handles n).thread).exited = true) := by
    intro d hd n hn htoken
    obtain ⟨owner, madeAt, -, -, howner⟩ := h.owner n hn
    have hsome : ownerTokenOf d.metadata = some owner := by
      rw [htoken, howner]
      rfl
    obtain ⟨metadata, hmetadata, hfound⟩ :=
      Option.bind_eq_some_iff.mp (ownerTokenOf_some hsome).1
    have hsame : metadata.ownerToken = (w.handles n).owner.ownerToken := by
      rw [hfound, ← hsome, htoken]
    have hok := h.decisions d hd
    obtain ⟨hpath, hmade⟩ := (hok.seen metadata hmetadata).2 n hn hsame
    refine ⟨hpath.symm, ?_, fun hreleased => ?_, fun hdead => hok.dead hdead metadata hmetadata n hn hsame,
      fun hexited => hok.exited hexited metadata hmetadata n hn hsame⟩
    · rw [hmetadata]
      rcases hmade with rfl | ⟨-, _, rfl⟩ <;> rfl
    · rcases hmade with rfl | ⟨hyes, -⟩
      · rw [LockDecision.ownerReleased, hmetadata, howner] at hreleased
        cases hreleased
      · exact hyes
  refine ⟨fun path file token hfile htoken hgone => ?_, htrue,
    fun n hn later hl hlt hpath hheld _ => ?_, fun n path file hop hfile hother => ?_⟩
  · rcases h.file_changes hfile hgone with ⟨n, hn, hop, hreleased, hpath, hfound⟩ | hremoved
    · refine Or.inl ⟨n, hn, hop, hreleased, hpath, ?_⟩
      rw [← hcarries n hn _ hfound]
      exact htoken
    · rw [htoken] at hremoved
      exact Or.inr hremoved
  · obtain ⟨d, hd, hdpath, hdtoken⟩ := h.earlier n hn later hl hlt hpath hheld
    have hcarried := hcarries n hn _ hdtoken
    obtain ⟨reclaim, hreclaim⟩ := Option.isSome_iff_exists.mp (h.decisions d hd).reclaims
    refine ⟨d, hd, hdpath, hcarried, ?_⟩
    rcases (shouldReclaim_some hreclaim).2 with hreleased | hrest
    · have hyes := (htrue d hd n hn hcarried).2.2.1 hreleased
      rw [hheld] at hyes
      cases hyes
    · exact hrest
  · by_contra hgone
    rcases h.file_changes hfile hgone with ⟨m, hm, hop', -, -, hfound⟩ | ⟨-, id, outcome, rfl, -⟩
    · obtain rfl : n = m := Option.some.inj (hop.symm.trans hop')
      exact hother (hcarries n hm _ hfound)
    · cases hop

/-- The owner of a lock dies, and a waiter of another process comes up to the removal. -/
def orphanedLockRun : List WorktreeLockOp :=
  [.spawn 10, .spawn 20, .startThread 0 0 none, .startThread 1 0 none,
    .acquire 0 0 "/lock" (some 1000), .create 0 "A" 5 { ino := 1 } .written, .exit 0,
    .acquire 1 1 "/lock" (some 1000), .create 1 "B" 6 { ino := 2 } .written, .stat 1,
    .read 1 false, .probe 1 false, .decide 1 7]

/-- The waiter removes the file, for it has seen the owner dead. -/
theorem worktree_lock_taken_over_orphaned :
    (worktreeLockStep (Runs.run worktreeLockStep {} orphanedLockRun) (.remove 1 .ok)).files "/lock" =
        none ∧
      ∃ d ∈ (Runs.run worktreeLockStep {} orphanedLockRun).decisions,
        d.path = "/lock" ∧ ownerTokenOf d.metadata = some "A" ∧ d.ownerState = some false := by
  have hstart : LockWorld.Initial {} :=
    ⟨rfl, rfl, fun _ => rfl, rfl, fun _ _ _ _ hfile => by cases hfile⟩
  obtain ⟨hchanges, -⟩ := worktree_lock_taken_over hstart orphanedLockRun (.remove 1 .ok)
  have hfile : (Runs.run worktreeLockStep {} orphanedLockRun).files "/lock" =
      some ⟨some ⟨some 10, some 0, none, some "A", some 5, none⟩, { ino := 1 }⟩ := by
    decide +kernel
  have hdead : ∀ d ∈ (Runs.run worktreeLockStep {} orphanedLockRun).decisions,
      d.ownerState = some false := by decide +kernel
  rcases hchanges "/lock" _ "A" hfile (by decide +kernel) (by decide +kernel) with
    ⟨n, -, hop, -⟩ | ⟨hnone, _, _, -, d, hd, hpath, htoken, -⟩
  · cases hop
  · exact ⟨hnone, d, hd, hpath, htoken, hdead d hd⟩

end PosseClient
