/-
# Readers of a stream, and loops of them

A reader takes a value off the front of a list, or fails.  It is local when what it takes does not
depend on what follows.  A loop runs a reader with a state until the list is empty or the reader
fails, and keeps the state it has then.

* `readAll_append`: a loop over two parts is a loop over the first and then over the second.
* `readAll_prefix`: what every turn of a loop preserves relates the end of a loop over a prefix to
  the end of the loop over the whole.
* `readAll_frames`, `readAll_frames_take`: a loop over frames is a fold over what they hold, and a
  loop over a list cut anywhere is the fold over the frames that are whole.
-/
import Mathlib

namespace PosseClient.Readers

variable {α β γ σ ε τ : Type*}

/-! ## 1. Readers -/

/-- What a reader takes does not depend on what follows. -/
def Local (read : List α → Except ε (β × List α)) : Prop :=
  ∀ l b rest, read l = .ok (b, rest) →
    ∃ used, l = used ++ rest ∧ ∀ tail, read (used ++ tail) = .ok (b, tail)

/-- A local reader that takes something whenever it succeeds. -/
structure Turns (read : List α → Except ε (β × List α)) : Prop where
  isLocal : Local read
  length_lt : ∀ {l b rest}, read l = .ok (b, rest) → rest.length < l.length

variable {read : List α → Except ε (β × List α)} {l l' rest : List α} {b : β}

/-- A success is a success with more behind it. -/
theorem Local.append (h : Local read) (hread : read l = .ok (b, rest)) (tail : List α) :
    read (l ++ tail) = .ok (b, rest ++ tail) := by
  obtain ⟨used, rfl, hused⟩ := h l b rest hread
  rw [List.append_assoc]
  exact hused (rest ++ tail)

theorem Local.length_le (h : Local read) (hread : read l = .ok (b, rest)) :
    rest.length ≤ l.length := by
  obtain ⟨used, rfl, -⟩ := h l b rest hread
  simp

/-- **A part that ends inside what a reader takes makes it fail.** -/
theorem Local.error_of_cut (h : Local read) (hread : read (l ++ l') = .ok (b, rest))
    (hcut : rest.length < l'.length) : ∃ err, read l = .error err := by
  cases hpart : read l with
  | error err => exact ⟨err, rfl⟩
  | ok found =>
    obtain ⟨b', rest'⟩ := found
    have hwhole := h.append hpart l'
    rw [hread] at hwhole
    have hlength := congrArg List.length (Prod.mk.inj (Except.ok.inj hwhole)).2
    rw [List.length_append] at hlength
    omega

/-- A reader that goes on with what the first one has found. -/
def andThen (read : List α → Except ε (β × List α))
    (next : β → List α → Except ε (γ × List α)) (l : List α) : Except ε (γ × List α) :=
  match read l with
  | .error err => .error err
  | .ok (b, rest) => next b rest

variable {next : β → List α → Except ε (γ × List α)} {c : γ}

theorem andThen_ok (hread : read l = .ok (b, rest)) : andThen read next l = next b rest := by
  unfold andThen
  rw [hread]

theorem andThen_eq_ok (h : andThen read next l = .ok (c, rest)) :
    ∃ b mid, read l = .ok (b, mid) ∧ next b mid = .ok (c, rest) := by
  unfold andThen at h
  cases hfirst : read l with
  | error err =>
    rw [hfirst] at h
    cases h
  | ok found =>
    obtain ⟨b, mid⟩ := found
    rw [hfirst] at h
    exact ⟨b, mid, rfl, h⟩

theorem Local.andThen (h : Local read) (hnext : ∀ b, Local (next b)) :
    Local (andThen read next) := by
  intro l c rest hread
  obtain ⟨b, mid, hfirst, hsecond⟩ := andThen_eq_ok hread
  obtain ⟨used, rfl, hused⟩ := h l b mid hfirst
  obtain ⟨used', rfl, hused'⟩ := hnext b mid c rest hsecond
  refine ⟨used ++ used', (List.append_assoc _ _ _).symm, fun tail => ?_⟩
  rw [List.append_assoc, andThen_ok (hused (used' ++ tail))]
  exact hused' tail

theorem Turns.andThen (h : Turns read) (hnext : ∀ b, Local (next b)) :
    Turns (andThen read next) where
  isLocal := h.isLocal.andThen hnext
  length_lt := by
    intro l c rest hread
    obtain ⟨b, mid, hfirst, hsecond⟩ := andThen_eq_ok hread
    exact ((hnext b).length_le hsecond).trans_lt (h.length_lt hfirst)

@[simp] theorem map_ok (f : β → γ) (b : β) : (Except.ok b : Except ε β).map f = .ok (f b) := rfl

/-- A value that is mapped takes what it took. -/
theorem Local.map (h : Local read) (f : β → γ) :
    Local (fun l => (read l).map (fun found => (f found.1, found.2))) := by
  intro l c rest hread
  cases hfirst : read l with
  | error err =>
    simp only [hfirst] at hread
    cases hread
  | ok found =>
    simp only [hfirst] at hread
    obtain ⟨rfl, rfl⟩ := Prod.mk.inj (Except.ok.inj hread)
    obtain ⟨used, rfl, hused⟩ := h l found.1 found.2 hfirst
    refine ⟨used, rfl, fun tail => ?_⟩
    simp only [hused tail]
    rfl

theorem Turns.map (h : Turns read) (f : β → γ) :
    Turns (fun l => (read l).map (fun found => (f found.1, found.2))) where
  isLocal := h.isLocal.map f
  length_lt := by
    intro l c rest hread
    cases hfirst : read l with
    | error err =>
      simp only [hfirst] at hread
      cases hread
    | ok found =>
      simp only [hfirst] at hread
      obtain ⟨-, rfl⟩ := Prod.mk.inj (Except.ok.inj hread)
      exact h.length_lt hfirst

/-! ## 2. Loops -/

/-- `while` the list is not empty; the fuel is the number of turns. -/
def loop (step : σ → List α → Except ε (σ × List α)) : ℕ → σ → List α → σ × Option ε
  | _, s, [] => (s, none)
  | 0, s, _ :: _ => (s, none)
  | fuel + 1, s, a :: l =>
    match step s (a :: l) with
    | .error err => (s, some err)
    | .ok (s', rest) => loop step fuel s' rest

/-- The loop, and why it has ended before the list. -/
def readAll (step : σ → List α → Except ε (σ × List α)) (s : σ) (l : List α) : σ × Option ε :=
  loop step l.length s l

variable {step : σ → List α → Except ε (σ × List α)} {s s' : σ}

@[simp] theorem readAll_nil (s : σ) : readAll step s [] = (s, none) := rfl

/-- Every turn takes something, so the length is fuel enough. -/
theorem loop_eq_of_le (hstep : ∀ s, Turns (step s)) :
    ∀ {fuel fuel' : ℕ} {l : List α}, l.length ≤ fuel → l.length ≤ fuel' → ∀ s,
      loop step fuel s l = loop step fuel' s l
  | 0, 0, [], _, _, _ => rfl
  | 0, _ + 1, [], _, _, _ => rfl
  | _ + 1, 0, [], _, _, _ => rfl
  | _ + 1, _ + 1, [], _, _, _ => rfl
  | fuel + 1, fuel' + 1, a :: l, h, h', s => by
    unfold loop
    cases hturn : step s (a :: l) with
    | error err => rfl
    | ok found =>
      obtain ⟨s', rest⟩ := found
      have hlt := (hstep s).length_lt hturn
      exact loop_eq_of_le hstep (by omega) (by omega) s'

theorem readAll_ok (hstep : ∀ s, Turns (step s)) (hturn : step s l = .ok (s', rest)) :
    readAll step s l = readAll step s' rest := by
  have hlt := (hstep s).length_lt hturn
  cases l with
  | nil => simp at hlt
  | cons a l =>
    unfold readAll
    rw [List.length_cons, loop, hturn]
    exact loop_eq_of_le hstep (by simp only [List.length_cons] at hlt; omega) le_rfl s'

theorem readAll_error {err : ε} (hne : l ≠ []) (hturn : step s l = .error err) :
    readAll step s l = (s, some err) := by
  cases l with
  | nil => exact absurd rfl hne
  | cons a l =>
    unfold readAll
    rw [List.length_cons, loop, hturn]

/-- The turns of a loop, by the length of what is left. -/
theorem readAll_induction (hstep : ∀ s, Turns (step s)) {motive : σ → List α → Prop}
    (nil : ∀ s, motive s [])
    (stop : ∀ s l err, l ≠ [] → step s l = .error err → motive s l)
    (turn : ∀ s l s' rest, step s l = .ok (s', rest) → motive s' rest → motive s l)
    (s : σ) (l : List α) : motive s l := by
  induction hn : l.length using Nat.strong_induction_on generalizing s l with
  | _ n ih =>
    cases l with
    | nil => exact nil s
    | cons a l =>
      cases hturn : step s (a :: l) with
      | error err => exact stop s _ err (List.cons_ne_nil _ _) hturn
      | ok found =>
        obtain ⟨s', rest⟩ := found
        have hlt := (hstep s).length_lt hturn
        exact turn s _ s' rest hturn (ih rest.length (hn ▸ hlt) s' rest rfl)

/-- What a turn does, a loop does. -/
theorem readAll_rel (hstep : ∀ s, Turns (step s)) {R : σ → σ → Prop} (hrefl : ∀ s, R s s)
    (htrans : ∀ {a b c}, R a b → R b c → R a c)
    (hturn : ∀ s l s' rest, step s l = .ok (s', rest) → R s s') (s : σ) (l : List α) :
    R s (readAll step s l).1 := by
  induction s, l using readAll_induction hstep with
  | nil s => exact hrefl s
  | stop s l err hne herr =>
    rw [readAll_error hne herr]
    exact hrefl s
  | turn s l s' rest hok ih =>
    rw [readAll_ok hstep hok]
    exact htrans (hturn s l s' rest hok) ih

/-- **A prefix**: a loop over a prefix stops at a state that the loop over the whole has gone
through. -/
theorem readAll_prefix (hstep : ∀ s, Turns (step s)) {R : σ → σ → Prop} (hrefl : ∀ s, R s s)
    (htrans : ∀ {a b c}, R a b → R b c → R a c)
    (hturn : ∀ s l s' rest, step s l = .ok (s', rest) → R s s') (s : σ) (l tail : List α) :
    R (readAll step s l).1 (readAll step s (l ++ tail)).1 := by
  induction s, l using readAll_induction hstep with
  | nil s => exact readAll_rel hstep hrefl htrans hturn s tail
  | stop s l err hne herr =>
    rw [readAll_error hne herr]
    exact readAll_rel hstep hrefl htrans hturn s (l ++ tail)
  | turn s l s' rest hok ih =>
    rw [readAll_ok hstep hok, readAll_ok hstep ((hstep s).isLocal.append hok tail)]
    exact ih

/-- **Two loops side by side**: where each turn of one is a turn of the other that takes as much,
and one comes to its end, so does the other. -/
theorem readAll_simulates {step' : τ → List α → Except ε (τ × List α)}
    (hstep : ∀ s, Turns (step s)) (hstep' : ∀ t, Turns (step' t)) {R : σ → τ → Prop}
    (hturn : ∀ s t l s' rest, R s t → step s l = .ok (s', rest) →
      ∃ t', step' t l = .ok (t', rest) ∧ R s' t')
    {t : τ} (hR : R s t) (hread : readAll step s l = (s', none)) :
    ∃ t', readAll step' t l = (t', none) ∧ R s' t' := by
  induction s, l using readAll_induction hstep generalizing t with
  | nil s =>
    obtain rfl := (Prod.mk.inj hread).1
    exact ⟨t, rfl, hR⟩
  | stop s l err hne herr =>
    rw [readAll_error hne herr] at hread
    cases (Prod.mk.inj hread).2
  | turn s l s₁ rest hok ih =>
    obtain ⟨t₁, hok', hR₁⟩ := hturn s t l s₁ rest hR hok
    rw [readAll_ok hstep hok] at hread
    rw [readAll_ok hstep' hok']
    exact ih hR₁ hread

/-! ## 3. Loops over frames -/

/-- The fold that a loop is when every turn takes one frame. -/
def foldUntil (apply : σ → τ → Except ε σ) : σ → List τ → σ × Option ε
  | s, [] => (s, none)
  | s, t :: ts =>
    match apply s t with
    | .error err => (s, some err)
    | .ok s' => foldUntil apply s' ts

/-- Off the front of a list, a turn takes a frame and applies what it holds. -/
def TakesFrames (step : σ → List α → Except ε (σ × List α)) (Frame : τ → List α → Prop)
    (apply : σ → τ → Except ε σ) : Prop :=
  ∀ s t part tail, Frame t part → step s (part ++ tail) = (apply s t).map (fun s' => (s', tail))

variable {Frame : τ → List α → Prop} {apply : σ → τ → Except ε σ} {ts : List τ}
  {parts : List (List α)}

theorem foldUntil_cons_ok {t : τ} (h : apply s t = .ok s') :
    foldUntil apply s (t :: ts) = foldUntil apply s' ts := by
  rw [foldUntil, h]

/-- **A loop over frames is a fold over what they hold.** -/
theorem readAll_frames (hstep : ∀ s, Turns (step s)) (hframe : TakesFrames step Frame apply)
    (hne : ∀ t part, Frame t part → part ≠ []) (hparts : List.Forall₂ Frame ts parts) (s : σ) :
    readAll step s parts.flatten = foldUntil apply s ts := by
  induction hparts generalizing s with
  | nil => rfl
  | @cons t part ts parts hpart _ ih =>
    have hturn := hframe s t part parts.flatten hpart
    rw [List.flatten_cons, foldUntil]
    cases happly : apply s t with
    | error err =>
      rw [happly] at hturn
      exact readAll_error (by simp [hne t part hpart]) hturn
    | ok s' =>
      rw [happly] at hturn
      rw [readAll_ok hstep hturn]
      exact ih s'

/-- How many of the parts lie within the first `k` symbols. -/
def partsWithin : List (List α) → ℕ → ℕ
  | [], _ => 0
  | part :: parts, k =>
    if part.length ≤ k then partsWithin parts (k - part.length) + 1 else 0

/-- **A loop over a list cut anywhere is the fold over the frames that are whole.** -/
theorem readAll_frames_take (hstep : ∀ s, Turns (step s)) (hframe : TakesFrames step Frame apply)
    (hok : ∀ s t, ∃ s', apply s t = .ok s') (hparts : List.Forall₂ Frame ts parts) (k : ℕ)
    (s : σ) :
    (readAll step s (parts.flatten.take k)).1 =
      (foldUntil apply s (ts.take (partsWithin parts k))).1 := by
  induction hparts generalizing s k with
  | nil => simp [partsWithin, foldUntil]
  | @cons t part ts parts hpart _ ih =>
    obtain ⟨s', happly⟩ := hok s t
    have hturn := hframe s t part
    simp only [happly, Except.map] at hturn
    by_cases hwhole : part.length ≤ k
    case pos =>
      rw [partsWithin, if_pos hwhole, List.take_succ_cons, foldUntil_cons_ok happly,
        List.flatten_cons, List.take_append, List.take_of_length_le hwhole,
        readAll_ok hstep (hturn _ hpart)]
      exact ih (k - part.length) s'
    case neg =>
      rw [partsWithin, if_neg hwhole, List.take_zero, List.flatten_cons,
        List.take_append_of_le_length (by omega)]
      cases hcut : part.take k with
      | nil => rfl
      | cons a cut =>
        have hread := hturn [] hpart
        rw [List.append_nil, ← List.take_append_drop k part] at hread
        obtain ⟨err, herr⟩ := (hstep s).isLocal.error_of_cut hread (by simp; omega)
        rw [hcut] at herr
        rw [readAll_error (List.cons_ne_nil a cut) herr]
        rfl

end PosseClient.Readers
