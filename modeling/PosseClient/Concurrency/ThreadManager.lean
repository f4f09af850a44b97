/-
# The worker threads of a process

Every `ThreadManager` of a process shares one registry of lifetime slots and one map
`liveWorkers`.  A state holds the runs in the order of their start, each with its entry of the map,
and the calls of `drainAll`; what other code does with the slots is part of the events.

* `Threads.start`: `ThreadManager.run`, up to the listeners.
* `Threads.drainLoop`, `drainWakes`, `drainContinues`: `ThreadManager.drainAll`, cut at its awaits.
* `Threads.step`: one event, of a run, of a drain or of another user of the slots.
* `Threads.Apart`: no two users hold one reservation; `tracked_step` follows one run through the
  events, and `threadManager_settles_after_thread` is what holds of it after every sequence of them.
-/
import PosseClient.Lib.Runs
import PosseClient.Concurrency.ThreadRunStages

namespace PosseClient

open Runs WorkerRun

variable {V : Type*}

/-! ## 1. The state -/

/-- Where a call of `drainAll` stands. -/
inductive DrainPhase where
  /-- The race of the `exited` promises with the timer. -/
  | racing (waiting : List ℕ)
  /-- `Promise.all` of the `terminate()` calls. -/
  | terminating
  /-- Returned, when so many runs had been started. -/
  | returned (started : ℕ)
  | rejected
  deriving DecidableEq, Repr

structure Drain where
  /-- The runs started before the call. -/
  startedBefore : ℕ
  phase : DrainPhase
  deriving DecidableEq, Repr

structure Threads (V : Type*) where
  registry : LifetimeRegistry
  runs : List (WorkerRun V) := []
  /-- The promises that were rejected for want of a worker. -/
  refused : List (RunOutcome V) := []
  /-- The reservations of other users of the registry. -/
  others : List ThreadLifetime := []
  drains : List Drain := []
  deriving DecidableEq, Repr

namespace Threads

/-! ## 2. Starting a run -/

/-- `run`: a signal aborted before rejects at once; building the worker may throw. -/
def start (request : RunRequest V) (s : Threads V) : Threads V :=
  match request.signal.bind (·.abortedBefore) with
  | some reason =>
    { s with refused := s.refused ++ [RunScene.abortOutcome request.label reason] }
  | none =>
    let (registry, lifetime) := s.registry.reserve
    match request.thrown with
    | some err =>
      { s with registry := registry.retire lifetime, refused := s.refused ++ [.rejected err] }
    | none =>
      let scene := RunScene.opened registry lifetime request
      { s with registry := scene.registry, runs := s.runs ++ [scene.run] }

/-! ## 3. `drainAll` -/

/-- The keys of `liveWorkers`. -/
def liveWorkers (s : Threads V) : List ℕ :=
  (List.range s.runs.length).filter fun i => (s.runs[i]?).any (·.registered)

/-- The head of the loop. -/
def drainLoop (s : Threads V) : DrainPhase :=
  if s.liveWorkers.isEmpty then .returned s.runs.length else .racing s.liveWorkers

def setPhase (d : ℕ) (phase : DrainPhase) (s : Threads V) : Threads V :=
  { s with drains := s.drains.modify d fun drain => { drain with phase := phase } }

/-- The race is over: all the workers it waits for are out, or its timer has fired.  Past the
deadline every worker that is still live is terminated. -/
def drainWakes (d : ℕ) (timerFired late : Bool) (s : Threads V) : Threads V :=
  match s.drains[d]? with
  | some { phase := .racing waiting, .. } =>
    if timerFired || waiting.all fun i => (s.runs[i]?).all (·.exited) then
      if late then
        setPhase d .terminating { s with runs := s.runs.map fun run =>
          if run.registered then { run with drainCalls := run.drainCalls ++ [{ next := d }] }
          else run }
      else setPhase d s.drainLoop s
    else s
  | _ => s

/-- `Promise.all` of the `terminate()` calls: it rejects with the first of them. -/
def drainContinues (d : ℕ) (s : Threads V) : Threads V :=
  match s.drains[d]? with
  | some { phase := .terminating, .. } =>
    let calls := s.runs.flatMap fun run => run.drainCalls.filter (·.next == d)
    if calls.any fun call => call.continued && call.settled == some false then
      setPhase d .rejected s
    else if calls.all (·.continued) then setPhase d s.drainLoop s
    else s
  | _ => s

/-! ## 4. Steps -/

inductive Event (V : Type*) where
  | start (request : RunRequest V)
  | run (i : ℕ) (event : RunScene.Event V)
  | drainAll
  | drainWakes (d : ℕ) (timerFired late : Bool)
  | drainContinues (d : ℕ)
  | reserveElsewhere
  | retireElsewhere (i : ℕ)
  deriving DecidableEq, Repr

/-- An event of one run. -/
def stepRun (i : ℕ) (event : RunScene.Event V) (s : Threads V) : Threads V :=
  match s.runs[i]? with
  | some run =>
    let scene := RunScene.step { registry := s.registry, run := run } event
    { s with registry := scene.registry, runs := s.runs.set i scene.run }
  | none => s

def step (s : Threads V) : Event V → Threads V
  | .start request => s.start request
  | .run i event => s.stepRun i event
  | .drainAll =>
    { s with drains := s.drains ++ [{ startedBefore := s.runs.length, phase := s.drainLoop }] }
  | .drainWakes d timerFired late => s.drainWakes d timerFired late
  | .drainContinues d => s.drainContinues d
  | .reserveElsewhere =>
    { s with registry := s.registry.reserve.1, others := s.others ++ s.registry.reserve.2.toList }
  | .retireElsewhere i => { s with registry := s.registry.retire s.others[i]? }

/-- A process whose registry may have been used before. -/
def initial (registry : LifetimeRegistry) : Threads V := { registry := registry }

end Threads

/-! ## 5. Reservations are apart -/

theorem getElem?_concat_cases {α : Type*} {l : List α} {a b : α} {i : ℕ}
    (h : (l ++ [a])[i]? = some b) : l[i]? = some b ∨ (i = l.length ∧ a = b) := by
  rcases Nat.lt_trichotomy i l.length with hi | rfl | hi
  · rw [List.getElem?_append_left hi] at h
    exact Or.inl h
  · rw [List.getElem?_concat_length] at h
    exact Or.inr ⟨rfl, Option.some.inj h⟩
  · rw [List.getElem?_eq_none (by simp; omega)] at h
    cases h

/-- No two users hold one reservation. -/
structure Threads.Apart (s : Threads V) : Prop where
  runs : ∀ (i j : ℕ) (run run' : WorkerRun V), s.runs[i]? = some run → s.runs[j]? = some run' →
    i ≠ j → ∀ lifetime ∈ run.lifetime, lifetime ∉ run'.lifetime
  others : ∀ run ∈ s.runs, ∀ lifetime ∈ run.lifetime, lifetime ∉ s.others
  issued : ∀ run ∈ s.runs, ∀ lifetime ∈ run.lifetime, s.registry.Issued lifetime
  issuedElsewhere : ∀ lifetime ∈ s.others, s.registry.Issued lifetime

variable {s s' : Threads V}

/-- The reservations stay as they are while the slots count on. -/
theorem Threads.Apart.advance (h : s.Apart) (hregistry : s.registry.Advances s'.registry)
    (hothers : s'.others = s.others)
    (hruns : ∀ (i : ℕ) (run' : WorkerRun V), s'.runs[i]? = some run' →
      ∃ run, s.runs[i]? = some run ∧ run'.lifetime = run.lifetime) : s'.Apart := by
  constructor
  · intro i j run run' hi hj hij
    obtain ⟨old, hold, hlife⟩ := hruns i run hi
    obtain ⟨old', hold', hlife'⟩ := hruns j run' hj
    rw [hlife, hlife']
    exact h.runs i j old old' hold hold' hij
  · intro run hrun
    obtain ⟨i, hi⟩ := List.mem_iff_getElem?.mp hrun
    obtain ⟨old, hold, hlife⟩ := hruns i run hi
    rw [hlife, hothers]
    exact h.others old (List.mem_of_getElem? hold)
  · intro run hrun lifetime hlifetime
    obtain ⟨i, hi⟩ := List.mem_iff_getElem?.mp hrun
    obtain ⟨old, hold, hlife⟩ := hruns i run hi
    rw [hlife] at hlifetime
    exact hregistry.issued (h.issued old (List.mem_of_getElem? hold) lifetime hlifetime)
  · intro lifetime hlifetime
    rw [hothers] at hlifetime
    exact hregistry.issued (h.issuedElsewhere lifetime hlifetime)

theorem opened_registry (registry : LifetimeRegistry) (lifetime : Option ThreadLifetime)
    (request : RunRequest V) :
    (RunScene.opened registry lifetime request).registry = registry ∧
      (RunScene.opened registry lifetime request).run.lifetime = lifetime ∧
      (RunScene.opened registry lifetime request).run.request = request := by
  unfold RunScene.opened RunScene.onAbort RunScene.finish
  dsimp only
  split
  · split_ifs <;> exact ⟨rfl, rfl, rfl⟩
  · exact ⟨rfl, rfl, rfl⟩

/-- What an event of one run does to the list and to the registry. -/
theorem stepRun_cases (i : ℕ) (event : RunScene.Event V) (s : Threads V) :
    (s.runs[i]? = none ∧ s.stepRun i event = s) ∨
      ∃ run, s.runs[i]? = some run ∧
        let scene := RunScene.step { registry := s.registry, run := run } event
        s.stepRun i event = { s with registry := scene.registry, runs := s.runs.set i scene.run } ∧
        RunScene.Keeps { registry := s.registry, run := run } scene := by
  unfold Threads.stepRun
  cases hrun : s.runs[i]? with
  | none => exact Or.inl ⟨rfl, rfl⟩
  | some run => exact Or.inr ⟨run, rfl, rfl, step_keeps _ _⟩

/-- An event of a run leaves the registry, or gives back the slot of that run. -/
theorem RunScene.Keeps.registry_cases {scene scene' : RunScene V} (h : scene.Keeps scene') :
    scene'.registry = scene.registry ∨
      scene'.registry = scene.registry.retire scene.run.lifetime := by
  rcases h.entry with ⟨hsame, -⟩ | ⟨-, hretired, -⟩
  · exact Or.inl hsame
  · exact Or.inr hretired

/-- What the drains do to the runs: each keeps what is told of it, but for the calls it gets. -/
theorem drain_runs (s : Threads V) (d : ℕ) :
    (∀ timerFired late, (s.drainWakes d timerFired late).registry = s.registry ∧
      (s.drainWakes d timerFired late).others = s.others ∧
      ((s.drainWakes d timerFired late).runs = s.runs ∨
        (s.drainWakes d timerFired late).runs = s.runs.map fun run =>
          if run.registered then { run with drainCalls := run.drainCalls ++ [{ next := d }] }
          else run)) ∧
    (s.drainContinues d).registry = s.registry ∧ (s.drainContinues d).others = s.others ∧
      (s.drainContinues d).runs = s.runs := by
  constructor
  · intro timerFired late
    unfold Threads.drainWakes Threads.setPhase
    split
    · split_ifs
      · exact ⟨rfl, rfl, Or.inr rfl⟩
      · exact ⟨rfl, rfl, Or.inl rfl⟩
      · exact ⟨rfl, rfl, Or.inl rfl⟩
    · exact ⟨rfl, rfl, Or.inl rfl⟩
  · unfold Threads.drainContinues Threads.setPhase
    split
    · dsimp only
      split_ifs <;> exact ⟨rfl, rfl, rfl⟩
    · exact ⟨rfl, rfl, rfl⟩

/-- Starting a run: it is refused, or it comes last with a reservation of its own. -/
theorem start_cases (request : RunRequest V) (s : Threads V) :
    (∃ err, (s.start request).refused = s.refused ++ [err] ∧ (s.start request).runs = s.runs ∧
      (s.start request).others = s.others ∧
      ((s.start request).registry = s.registry ∨
        (s.start request).registry = s.registry.reserve.1.retire s.registry.reserve.2)) ∨
    (request.signal.bind (·.abortedBefore) = none ∧ request.thrown = none ∧
      s.start request = { s with
        registry := s.registry.reserve.1,
        runs := s.runs ++
          [(RunScene.opened s.registry.reserve.1 s.registry.reserve.2 request).run] }) := by
  unfold Threads.start
  cases request.signal.bind (·.abortedBefore) with
  | some reason => exact Or.inl ⟨_, rfl, rfl, rfl, Or.inl rfl⟩
  | none =>
    cases request.thrown with
    | some err => exact Or.inl ⟨_, rfl, rfl, rfl, Or.inr rfl⟩
    | none =>
      refine Or.inr ⟨rfl, rfl, ?_⟩
      dsimp only
      rw [(opened_registry _ _ _).1]

theorem holds_fresh (registry : LifetimeRegistry) :
    ∀ lifetime ∈ registry.reserve.2, registry.reserve.1.Holds lifetime :=
  fun _ hlifetime => LifetimeRegistry.holds_reserve hlifetime

theorem advances_start (request : RunRequest V) (s : Threads V) :
    s.registry.Advances (s.start request).registry := by
  have hreserve := LifetimeRegistry.advances_reserve s.registry
  rcases start_cases request s with ⟨-, -, -, -, hsame | hretired⟩ | ⟨-, -, hstart⟩
  · rw [hsame]
    exact LifetimeRegistry.Advances.refl _
  · rw [hretired]
    exact hreserve.trans (LifetimeRegistry.advances_retire _ _
      fun lifetime hlifetime => (holds_fresh _ lifetime hlifetime).pos)
  · rw [hstart]
    exact hreserve

theorem Threads.Apart.start (h : s.Apart) (request : RunRequest V) : (s.start request).Apart := by
  have hadvances := advances_start request s
  rcases start_cases request s with ⟨err, -, hruns, hothers, -⟩ | ⟨-, -, hstart⟩
  · refine h.advance hadvances hothers fun i run' hrun => ⟨run', ?_, rfl⟩
    rw [← hruns]
    exact hrun
  · have hfresh : ∀ lifetime ∈ s.registry.reserve.2, ∀ other, s.registry.Issued other →
        lifetime ≠ other :=
      fun lifetime hlifetime other hother =>
        LifetimeRegistry.reserve_ne_issued hlifetime hother
    have hreserve := LifetimeRegistry.advances_reserve s.registry
    have hlast := (opened_registry s.registry.reserve.1 s.registry.reserve.2 request).2.1
    rw [hstart]
    constructor
    · intro i j run run' hi hj hij lifetime hlifetime hlifetime'
      rcases getElem?_concat_cases hi with hi | ⟨rfl, rfl⟩
      · rcases getElem?_concat_cases hj with hj | ⟨rfl, rfl⟩
        · exact h.runs i j run run' hi hj hij lifetime hlifetime hlifetime'
        · rw [hlast] at hlifetime'
          exact hfresh lifetime hlifetime' lifetime
            (h.issued run (List.mem_of_getElem? hi) lifetime hlifetime) rfl
      · rcases getElem?_concat_cases hj with hj | ⟨rfl, rfl⟩
        · rw [hlast] at hlifetime
          exact hfresh lifetime hlifetime lifetime
            (h.issued run' (List.mem_of_getElem? hj) lifetime hlifetime') rfl
        · exact hij rfl
    · intro run hrun lifetime hlifetime hother
      rcases List.mem_append.mp hrun with hrun | hrun
      · exact h.others run hrun lifetime hlifetime hother
      · rw [List.mem_singleton.mp hrun, hlast] at hlifetime
        exact hfresh lifetime hlifetime lifetime (h.issuedElsewhere lifetime hother) rfl
    · intro run hrun lifetime hlifetime
      rcases List.mem_append.mp hrun with hrun | hrun
      · exact hreserve.issued (h.issued run hrun lifetime hlifetime)
      · rw [List.mem_singleton.mp hrun, hlast] at hlifetime
        exact (holds_fresh _ lifetime hlifetime).issued
    · exact fun lifetime hlifetime => hreserve.issued (h.issuedElsewhere lifetime hlifetime)

/-- **No event makes two users share a reservation.** -/
theorem Threads.Apart.step (h : s.Apart) (event : Threads.Event V) : (s.step event).Apart := by
  cases event with
  | start request => exact h.start request
  | run i event =>
    rcases stepRun_cases i event s with ⟨-, hsame⟩ | ⟨run, hrun, heq, hkeeps⟩
    · simp only [Threads.step, hsame]
      exact h
    · simp only [Threads.step, heq]
      refine h.advance ?_ rfl ?_
      · have hissued := h.issued run (List.mem_of_getElem? hrun)
        rcases hkeeps.registry_cases with hreg | hreg
        · simp only [hreg]
          exact LifetimeRegistry.Advances.refl _
        · simp only [hreg]
          exact LifetimeRegistry.advances_retire _ _
            fun lifetime hlifetime => (hissued lifetime hlifetime).pos
      · intro j run' hj
        by_cases hij : i = j
        · subst hij
          have hlen : i < s.runs.length := (List.getElem?_eq_some_iff.mp hrun).1
          rw [List.getElem?_set_self hlen] at hj
          obtain rfl := Option.some.inj hj
          exact ⟨run, hrun, hkeeps.lifetime⟩
        · rw [List.getElem?_set_ne hij] at hj
          exact ⟨run', hj, rfl⟩
  | drainAll =>
    exact h.advance (LifetimeRegistry.Advances.refl _) rfl fun i run' hrun => ⟨run', hrun, rfl⟩
  | drainWakes d timerFired late =>
    obtain ⟨hregistry, hothers, hruns⟩ := (drain_runs s d).1 timerFired late
    refine h.advance (by rw [Threads.step, hregistry]; exact LifetimeRegistry.Advances.refl _)
      hothers ?_
    intro i run' hrun
    simp only [Threads.step] at hrun
    rcases hruns with hruns | hruns
    · rw [hruns] at hrun
      exact ⟨run', hrun, rfl⟩
    · rw [hruns, List.getElem?_map] at hrun
      obtain ⟨run, hold, rfl⟩ := Option.map_eq_some_iff.mp hrun
      refine ⟨run, hold, ?_⟩
      split_ifs <;> rfl
  | drainContinues d =>
    obtain ⟨-, hregistry, hothers, hruns⟩ := drain_runs s d
    refine h.advance (by rw [Threads.step, hregistry]; exact LifetimeRegistry.Advances.refl _)
      hothers fun i run' hrun => ⟨run', ?_, rfl⟩
    rw [← hruns]
    exact hrun
  | reserveElsewhere =>
    have hreserve := LifetimeRegistry.advances_reserve s.registry
    constructor
    · exact h.runs
    · intro run hrun lifetime hlifetime hother
      rcases List.mem_append.mp hother with hother | hother
      · exact h.others run hrun lifetime hlifetime hother
      · exact LifetimeRegistry.reserve_ne_issued (Option.mem_toList.mp hother)
          (h.issued run hrun lifetime hlifetime) rfl
    · exact fun run hrun lifetime hlifetime =>
        hreserve.issued (h.issued run hrun lifetime hlifetime)
    · intro lifetime hlifetime
      rcases List.mem_append.mp hlifetime with hlifetime | hlifetime
      · exact hreserve.issued (h.issuedElsewhere lifetime hlifetime)
      · exact (holds_fresh _ lifetime (Option.mem_toList.mp hlifetime)).issued
  | retireElsewhere i =>
    refine h.advance (LifetimeRegistry.advances_retire _ _ fun lifetime hlifetime => ?_) rfl
      fun j run' hrun => ⟨run', hrun, rfl⟩
    exact (h.issuedElsewhere lifetime (List.mem_of_getElem? hlifetime)).pos

/-! ## 6. One run among the others -/

/-- What an event says about the outcome of a run. -/
def eventOutcome (i : ℕ) (request : RunRequest V) : Threads.Event V → Option (RunOutcome V)
  | .run j event => if j = i then terminalOutcome request event else none
  | _ => none

/-- A run that is followed through the events, with the outcome of its first terminal one. -/
structure Threads.Tracked (s : Threads V) (i : ℕ) (request : RunRequest V)
    (first : Option (RunOutcome V)) : Prop where
  apart : s.Apart
  run : ∃ run, s.runs[i]? = some run ∧ run.request = request ∧ run.Stage first ∧
    RunScene.EntryKept { registry := s.registry, run := run }

/-- The entry of a worker while others use the registry. -/
theorem RunScene.EntryKept.retired_by {registry : LifetimeRegistry} {run : WorkerRun V}
    (h : RunScene.EntryKept { registry := registry, run := run }) {given : Option ThreadLifetime}
    (hissued : ∀ other ∈ given, registry.Issued other)
    (hne : ∀ other ∈ given, ∀ lifetime ∈ run.lifetime, other ≠ lifetime) :
    RunScene.EntryKept { registry := registry.retire given, run := run } := by
  cases given with
  | none => exact h
  | some other => exact h.retireElsewhere (hissued other rfl).pos (hne other rfl)

variable {i : ℕ} {request : RunRequest V} {first : Option (RunOutcome V)}

theorem tracked_start (h : s.Tracked i request first) (other : RunRequest V) :
    (s.start other).Tracked i request first := by
  obtain ⟨run, hrun, hrequest, hstage, hkept⟩ := h.run
  have hissued := h.apart.issued run (List.mem_of_getElem? hrun)
  refine ⟨h.apart.start other, run, ?_, hrequest, hstage, ?_⟩
  · rcases start_cases other s with ⟨-, -, hruns, -⟩ | ⟨-, -, hstart⟩
    · rw [hruns]
      exact hrun
    · rw [hstart]
      exact (List.getElem?_append_left (List.getElem?_eq_some_iff.mp hrun).1).trans hrun
  · rcases start_cases other s with ⟨-, -, -, -, hsame | hretired⟩ | ⟨-, -, hstart⟩
    · rw [hsame]
      exact hkept
    · rw [hretired]
      refine hkept.reserve.retired_by
        (fun lifetime hlifetime => (holds_fresh _ lifetime hlifetime).issued) ?_
      exact fun fresh hfresh lifetime hlifetime =>
        LifetimeRegistry.reserve_ne_issued hfresh (hissued lifetime hlifetime)
    · rw [hstart]
      exact hkept.reserve

theorem tracked_run (h : s.Tracked i request first) (j : ℕ) (event : RunScene.Event V) :
    (s.stepRun j event).Tracked i request
      (first.or (eventOutcome i request (.run j event))) := by
  obtain ⟨run, hrun, hrequest, hstage, hkept⟩ := h.run
  have hlen : i < s.runs.length := (List.getElem?_eq_some_iff.mp hrun).1
  refine ⟨h.apart.step (.run j event), ?_⟩
  rcases stepRun_cases j event s with ⟨hnone, hsame⟩ | ⟨other, hother, heq, hkeeps⟩
  · have hij : j ≠ i := by
      rintro rfl
      rw [hrun] at hnone
      cases hnone
    rw [hsame, eventOutcome, if_neg hij, Option.or_none]
    exact ⟨run, hrun, hrequest, hstage, hkept⟩
  · rw [heq]
    by_cases hij : j = i
    · subst hij
      obtain rfl : run = other := Option.some.inj (hrun.symm.trans hother)
      refine ⟨_, List.getElem?_set_self hlen, hkeeps.request.trans hrequest, ?_, ?_⟩
      · rw [eventOutcome, if_pos rfl, ← hrequest]
        exact stage_step hstage event
      · exact hkept.of_keeps hkeeps
    · refine ⟨run, (List.getElem?_set_ne hij).trans hrun, hrequest, ?_, ?_⟩
      · rw [eventOutcome, if_neg hij, Option.or_none]
        exact hstage
      · rcases hkeeps.registry_cases with hreg | hreg
        · simp only [hreg]
          exact hkept
        · simp only [hreg]
          refine hkept.retired_by (h.apart.issued other (List.mem_of_getElem? hother)) ?_
          rintro given hgiven lifetime hlifetime rfl
          exact h.apart.runs j i other run hother hrun hij given hgiven hlifetime

/-- **One event**: a run is followed with the outcome of its first terminal event. -/
theorem tracked_step (h : s.Tracked i request first) (event : Threads.Event V) :
    (s.step event).Tracked i request (first.or (eventOutcome i request event)) := by
  obtain ⟨run, hrun, hrequest, hstage, hkept⟩ := h.run
  cases event with
  | start other => simpa [eventOutcome, Threads.step] using tracked_start h other
  | run j event => exact tracked_run h j event
  | drainAll =>
    simp only [eventOutcome, Option.or_none]
    exact ⟨h.apart.step .drainAll, run, hrun, hrequest, hstage, hkept⟩
  | drainWakes d timerFired late =>
    simp only [eventOutcome, Option.or_none]
    refine ⟨h.apart.step (.drainWakes d timerFired late), ?_⟩
    obtain ⟨hregistry, -, hruns⟩ := (drain_runs s d).1 timerFired late
    simp only [Threads.step, hregistry]
    rcases hruns with hruns | hruns
    · rw [hruns]
      exact ⟨run, hrun, hrequest, hstage, hkept⟩
    · rw [hruns, List.getElem?_map, hrun]
      refine ⟨_, rfl, ?_⟩
      dsimp only
      split_ifs
      · refine ⟨hrequest, hstage.aside (Or.inl rfl) _ _ _ _,
          hkept.of_keeps ⟨rfl, rfl, ?_, Or.inl ⟨rfl, rfl⟩⟩⟩
        rintro (hexit | hsettled | ⟨call, hcall, hsettled⟩)
        · exact Or.inl hexit
        · exact Or.inr (Or.inl hsettled)
        · exact Or.inr (Or.inr ⟨call, List.mem_append_left _ hcall, hsettled⟩)
      · exact ⟨hrequest, hstage, hkept⟩
  | drainContinues d =>
    simp only [eventOutcome, Option.or_none]
    refine ⟨h.apart.step (.drainContinues d), ?_⟩
    obtain ⟨-, hregistry, -, hruns⟩ := drain_runs s d
    simp only [Threads.step, hregistry, hruns]
    exact ⟨run, hrun, hrequest, hstage, hkept⟩
  | reserveElsewhere =>
    simp only [eventOutcome, Option.or_none]
    exact ⟨h.apart.step .reserveElsewhere, run, hrun, hrequest, hstage, hkept.reserve⟩
  | retireElsewhere j =>
    simp only [eventOutcome, Option.or_none]
    refine ⟨h.apart.step (.retireElsewhere j), run, hrun, hrequest, hstage,
      hkept.retired_by (fun other hother => ?_) ?_⟩
    · exact h.apart.issuedElsewhere other (List.mem_of_getElem? hother)
    · rintro other hother lifetime hlifetime rfl
      exact h.apart.others run (List.mem_of_getElem? hrun) other hlifetime
        (List.mem_of_getElem? hother)

theorem tracked_run_of_events (h : s.Tracked i request first) (events : List (Threads.Event V)) :
    (run Threads.step s events).Tracked i request
      (first.or (events.findSome? (eventOutcome i request))) := by
  induction events generalizing s first with
  | nil => simpa using h
  | cons event events ih =>
    have hstep := ih (tracked_step h event)
    rw [Option.or_assoc] at hstep
    rw [run_cons, List.findSome?_cons]
    cases hevent : eventOutcome i request event with
    | none => simpa [hevent] using hstep
    | some outcome => simpa [hevent] using hstep

/-! ## 7. The drains -/

/-- A drain that has returned has seen every worker started before out of the registry. -/
def Threads.DrainsSound (s : Threads V) : Prop :=
  ∀ drain ∈ s.drains, drain.startedBefore ≤ s.runs.length ∧
    ∀ started, drain.phase = .returned started → drain.startedBefore ≤ started ∧
      started ≤ s.runs.length ∧
      ∀ i < started, ∀ run, s.runs[i]? = some run → run.registered = false

/-- Runs are only added, and no worker comes back. -/
theorem Threads.DrainsSound.grow (h : s.DrainsSound) (hdrains : s'.drains = s.drains)
    (hlen : s.runs.length ≤ s'.runs.length)
    (hruns : ∀ (i : ℕ) (run : WorkerRun V), s.runs[i]? = some run →
      ∃ run', s'.runs[i]? = some run' ∧ (run.registered = false → run'.registered = false)) :
    s'.DrainsSound := by
  intro drain hdrain
  rw [hdrains] at hdrain
  obtain ⟨hbefore, hreturned⟩ := h drain hdrain
  refine ⟨hbefore.trans hlen, fun started hphase => ?_⟩
  obtain ⟨hstarted, hle, hout⟩ := hreturned started hphase
  refine ⟨hstarted, hle.trans hlen, fun i hi run' hrun' => ?_⟩
  obtain ⟨next, hnext, hgone⟩ := hruns i _ (List.getElem?_eq_getElem (hi.trans_le hle))
  obtain rfl : next = run' := Option.some.inj (hnext.symm.trans hrun')
  exact hgone (hout i hi _ (List.getElem?_eq_getElem _))

/-- The loop returns when no worker is live. -/
theorem drainLoop_returned {started : ℕ} (h : s.drainLoop = .returned started) :
    started = s.runs.length ∧
      ∀ (i : ℕ) (run : WorkerRun V), s.runs[i]? = some run → run.registered = false := by
  unfold Threads.drainLoop at h
  split_ifs at h with hempty
  · refine ⟨(DrainPhase.returned.inj h).symm, fun i run hrun => ?_⟩
    rw [← Bool.not_eq_true]
    intro hregistered
    have hlive : i ∈ s.liveWorkers := by
      refine List.mem_filter.mpr ⟨List.mem_range.mpr (List.getElem?_eq_some_iff.mp hrun).1, ?_⟩
      rw [hrun]
      exact hregistered
    rw [List.isEmpty_iff.mp hempty] at hlive
    cases hlive

/-- The phase of one drain changes to one that the loop allows. -/
theorem Threads.DrainsSound.setPhase (h : s.DrainsSound) (d : ℕ) (phase : DrainPhase)
    (hphase : ∀ started, phase = .returned started → started = s.runs.length ∧
      ∀ (i : ℕ) (run : WorkerRun V), s.runs[i]? = some run → run.registered = false) :
    (s.setPhase d phase).DrainsSound := by
  intro drain hdrain
  obtain ⟨j, hj⟩ := List.mem_iff_getElem?.mp hdrain
  simp only [Threads.setPhase, List.getElem?_modify] at hj
  obtain ⟨old, hold, hnew⟩ := Option.map_eq_some_iff.mp hj
  obtain ⟨hbefore, hreturned⟩ := h old (List.mem_of_getElem? hold)
  split_ifs at hnew
  · subst hnew
    refine ⟨hbefore, fun started hstarted => ?_⟩
    obtain ⟨rfl, hout⟩ := hphase started hstarted
    exact ⟨hbefore, le_rfl, fun i _ run hrun => hout i run hrun⟩
  · subst hnew
    exact ⟨hbefore, hreturned⟩

theorem Threads.DrainsSound.step (h : s.DrainsSound) (event : Threads.Event V) :
    (s.step event).DrainsSound := by
  have hkeep : ∀ (i : ℕ) (run : WorkerRun V), s.runs[i]? = some run →
      ∃ run', s.runs[i]? = some run' ∧ (run.registered = false → run'.registered = false) :=
    fun i run hrun => ⟨run, hrun, id⟩
  cases event with
  | start request =>
    rcases start_cases request s with ⟨-, -, hruns, -⟩ | ⟨-, -, hstart⟩
    · refine h.grow ?_ (by simp [Threads.step, hruns]) (by simpa [Threads.step, hruns] using hkeep)
      simp only [Threads.step, Threads.start]
      split
      · rfl
      · split <;> rfl
    · simp only [Threads.step, hstart]
      refine h.grow rfl (by simp) fun i run hrun => ⟨run, ?_, id⟩
      exact (List.getElem?_append_left (List.getElem?_eq_some_iff.mp hrun).1).trans hrun
  | run j event =>
    simp only [Threads.step]
    rcases stepRun_cases j event s with ⟨-, hsame⟩ | ⟨other, hother, heq, hkeeps⟩
    · rw [hsame]
      exact h
    · rw [heq]
      refine h.grow rfl (by simp) fun i run hrun => ?_
      by_cases hij : j = i
      · subst hij
        obtain rfl : run = other := Option.some.inj (hrun.symm.trans hother)
        refine ⟨_, List.getElem?_set_self (List.getElem?_eq_some_iff.mp hrun).1, fun hgone => ?_⟩
        rcases hkeeps.entry with ⟨-, hsame⟩ | ⟨-, -, hout⟩
        · exact hsame.trans hgone
        · exact hout
      · exact ⟨run, (List.getElem?_set_ne hij).trans hrun, id⟩
  | drainAll =>
    intro drain hdrain
    rcases List.mem_append.mp hdrain with hdrain | hdrain
    · exact h drain hdrain
    · obtain rfl := List.mem_singleton.mp hdrain
      refine ⟨le_rfl, fun started hphase => ?_⟩
      obtain ⟨rfl, hout⟩ := drainLoop_returned hphase
      exact ⟨le_rfl, le_rfl, fun i _ run hrun => hout i run hrun⟩
  | drainWakes d timerFired late =>
    simp only [Threads.step, Threads.drainWakes]
    split
    · split_ifs
      · refine Threads.DrainsSound.setPhase ?_ d .terminating
          (fun started habsurd => by cases habsurd)
        refine h.grow rfl (by simp) fun i run hrun => ?_
        refine ⟨_, by rw [List.getElem?_map, hrun]; rfl, fun hgone => ?_⟩
        dsimp only
        rw [if_neg (by simp [hgone])]
        exact hgone
      · exact h.setPhase d _ fun started => drainLoop_returned
      · exact h
    · exact h
  | drainContinues d =>
    simp only [Threads.step, Threads.drainContinues]
    split
    · split_ifs
      · exact h.setPhase d .rejected fun started habsurd => by cases habsurd
      · exact h.setPhase d _ fun started => drainLoop_returned
      · exact h
    · exact h
  | reserveElsewhere => exact h.grow rfl le_rfl hkeep
  | retireElsewhere i => exact h.grow rfl le_rfl hkeep

/-! ## 8. Every sequence of events -/

theorem apart_initial (registry : LifetimeRegistry) :
    (Threads.initial registry : Threads V).Apart := by
  constructor
  · intro i j run run' hi
    simp [Threads.initial] at hi
  · intro run hrun
    cases hrun
  · intro run hrun
    cases hrun
  · intro lifetime hlifetime
    cases hlifetime

/-- Why `run` rejects without a worker: its signal is aborted already, or building the worker
throws. -/
def RunRequest.refusal (request : RunRequest V) : Option (RunOutcome V) :=
  match request.signal.bind (·.abortedBefore) with
  | some reason => some (RunScene.abortOutcome request.label reason)
  | none => request.thrown.map .rejected

theorem start_of_refusal_none (h : request.refusal = none) (s : Threads V) :
    s.start request = { s with
      registry := s.registry.reserve.1,
      runs := s.runs ++
        [(RunScene.opened s.registry.reserve.1 s.registry.reserve.2 request).run] } := by
  unfold RunRequest.refusal at h
  unfold Threads.start
  cases hbefore : request.signal.bind (·.abortedBefore) with
  | some reason =>
    rw [hbefore] at h
    cases h
  | none =>
    rw [hbefore] at h
    rw [Option.map_eq_none_iff.mp h]
    dsimp only
    rw [(opened_registry _ _ _).1]

theorem RunScene.EntryKept.with_registry {scene : RunScene V} (h : scene.EntryKept)
    {registry : LifetimeRegistry} (hregistry : scene.registry = registry) :
    RunScene.EntryKept { registry := registry, run := scene.run } := by
  subst hregistry
  exact h

/-- A run is followed from its start on. -/
theorem tracked_opened (h : s.Apart) (hrefusal : request.refusal = none) :
    (s.start request).Tracked s.runs.length request
      ((request.signal.bind (·.abortedMeanwhile)).map
        (RunScene.abortOutcome request.label)) := by
  have hstart := start_of_refusal_none hrefusal s
  obtain ⟨hregistry, -, hrequest⟩ :=
    opened_registry s.registry.reserve.1 s.registry.reserve.2 request
  have hkept := entryKept_opened s.registry request
  refine ⟨h.start request,
    (RunScene.opened s.registry.reserve.1 s.registry.reserve.2 request).run, ?_, hrequest,
    stage_opened _ _ request, ?_⟩
  · rw [hstart]
    exact List.getElem?_concat_length
  · rw [hstart]
    exact hkept.with_registry hregistry

/-- **`run` settles once, and only after its thread is gone.**  For every process, every sequence
of events before the start of a run and after it: a run without a worker rejects at once.  Any
other settles at most once, with the outcome of its first terminal event, and has settled when
nothing of it is outstanding; when it has settled its thread is over, the worker is out of the
registry and its slot is given back, neither of which happens while the thread is not over; and a
`drainAll` that has returned has seen every worker started before it leave the registry. -/
theorem threadManager_settles_after_thread (registry : LifetimeRegistry)
    (before after : List (Threads.Event V)) (request : RunRequest V) :
    let opened := Runs.run Threads.step (Threads.initial registry) before
    let started := opened.step (.start request)
    let s := Runs.run Threads.step started after
    let i := opened.runs.length
    match request.refusal with
    | some outcome =>
      started.refused = opened.refused ++ [outcome] ∧ started.runs = opened.runs
    | none =>
      let first := ((request.signal.bind (·.abortedMeanwhile)).map
        (RunScene.abortOutcome request.label)).or (after.findSome? (eventOutcome i request))
      ∃ run, s.runs[i]? = some run ∧ run.request = request ∧
        (run.settlements = [] ∨ ∃ outcome, first = some outcome ∧ run.settlements = [outcome]) ∧
        (run.Idle → run.settlements = first.toList) ∧
        (run.settlements ≠ [] → run.ThreadOver ∧ run.registered = false ∧
          ∀ lifetime ∈ run.lifetime, s.registry.hasExited lifetime = true) ∧
        (¬ run.ThreadOver → run.registered = true ∧
          ∀ lifetime ∈ run.lifetime, s.registry.hasExited lifetime = false) ∧
        ∀ drain ∈ s.drains, ∀ seen, drain.phase = .returned seen →
          drain.startedBefore ≤ seen ∧ (i < seen → run.registered = false) := by
  intro opened started s i
  have hapart : opened.Apart :=
    run_invariant_of_forall (fun _ event h => h.step event) (apart_initial registry)
  have hsound : s.DrainsSound := by
    refine run_invariant_of_forall (fun _ event h => h.step event) ?_
    refine Threads.DrainsSound.step ?_ _
    refine run_invariant_of_forall (fun _ event h => h.step event) ?_
    intro drain hdrain
    cases hdrain
  split
  · rename_i outcome hrefusal
    unfold RunRequest.refusal at hrefusal
    simp only [started, Threads.step, Threads.start]
    cases hbefore : request.signal.bind (·.abortedBefore) with
    | some reason =>
      rw [hbefore] at hrefusal
      obtain rfl := Option.some.inj hrefusal
      exact ⟨rfl, rfl⟩
    | none =>
      rw [hbefore] at hrefusal
      obtain ⟨err, herr, rfl⟩ := Option.map_eq_some_iff.mp hrefusal
      rw [herr]
      exact ⟨rfl, rfl⟩
  · rename_i hrefusal
    intro first
    obtain ⟨run, hrun, hrequest, hstage, hkept⟩ :=
      (tracked_run_of_events (tracked_opened hapart hrefusal) after).run
    refine ⟨run, hrun, hrequest, ?_, hstage.settled_of_idle, ?_, ?_, ?_⟩
    · rcases hstage.settlements with hnone | ⟨outcome, hfirst, hsettled, -⟩
      · exact Or.inl hnone
      · exact Or.inr ⟨outcome, hfirst, hsettled⟩
    · intro hsettled
      rcases hstage.settlements with hnone | ⟨-, -, -, hgone⟩
      · exact absurd hnone hsettled
      · exact ⟨hkept.left hgone, hgone, hkept.retired hgone⟩
    · intro hover
      have hregistered : run.registered = true := by
        rw [← Bool.not_eq_false]
        exact fun hgone => hover (hkept.left hgone)
      exact ⟨hregistered, fun lifetime hlifetime =>
        (hkept.held hregistered lifetime hlifetime).hasExited_eq_false⟩
    · intro drain hdrain seen hphase
      obtain ⟨hseen, -, hout⟩ := (hsound drain hdrain).2 seen hphase
      exact ⟨hseen, fun hi => hout i hi run hrun⟩

end PosseClient
