/-
# Removing a `cd` to the working directory

What the command means that `removeNoopCdSubcommands` gives, against the one it got.

* `splitFrom_shape`: the segments of a command, as the lexer leaves them.
* `split_removed`: the command that is given splits into the segments that were kept.
* `noop_cd_removal_exact`: where the meaning is preserved.
-/
import PosseClient.Scope.ShellCommands

namespace PosseClient

open Json Chains

/-! ## 1. Lexing -/

/-- No operator stands in `text`, where `after` follows it. -/
def Quiet : LexState → Utf16 → Utf16 → Prop
  | _, [], _ => True
  | state, ch :: rest, after =>
    (state = .plain → ch ≠ 59 ∧ ch ≠ 124 ∧ (ch = 38 → (rest ++ after).head? ≠ some 38)) ∧
      Quiet (state.step ch) rest after

theorem step_ne_second (state : LexState) (ch : ℕ) : state.step ch ≠ .second := by
  cases state with
  | plain =>
    rw [LexState.step]
    split_ifs <;> simp
  | single =>
    rw [LexState.step]
    split_ifs <;> simp
  | double =>
    rw [LexState.step]
    split_ifs <;> simp
  | escape => simp [LexState.step]
  | doubleEscape => simp [LexState.step]
  | second => simp [LexState.step]

theorem lexEnd_append (state : LexState) (text after : Utf16) :
    lexEnd state (text ++ after) = lexEnd (lexEnd state text) after := List.foldl_append

theorem splitFrom_nil (state : LexState) (current : Utf16) (join : Option Join) :
    splitFrom state current join [] = [⟨current, join⟩] := by
  cases state <;> rfl

/-- A unit that is no operator goes to the segment. -/
theorem splitFrom_cons {state : LexState} (hstate : state ≠ .second) {ch : ℕ} {rest : Utf16}
    (h : state = .plain → ch ≠ 59 ∧ ch ≠ 124 ∧ (ch = 38 → rest.head? ≠ some 38))
    (current : Utf16) (join : Option Join) :
    splitFrom state current join (ch :: rest) =
      splitFrom (state.step ch) (current ++ [ch]) join rest := by
  cases state with
  | plain =>
    obtain ⟨hseq, hpipe, hand⟩ := h rfl
    rw [splitFrom, if_neg hseq, if_neg fun hboth => hand hboth.1 hboth.2,
      if_neg fun hboth => hpipe hboth.1, if_neg hpipe]
  | escape => rfl
  | single => rfl
  | double => rfl
  | doubleEscape => rfl
  | second => exact absurd rfl hstate

/-- **A text without operators** goes to the segment. -/
theorem splitFrom_quiet {state : LexState} (hstate : state ≠ .second) {text after : Utf16}
    (h : Quiet state text after) (current : Utf16) (join : Option Join) :
    splitFrom state current join (text ++ after) =
      splitFrom (lexEnd state text) (current ++ text) join after := by
  induction text generalizing state current with
  | nil => simp [lexEnd]
  | cons ch rest ih =>
    rw [List.cons_append, splitFrom_cons hstate h.1, ih (step_ne_second state ch) h.2]
    simp [lexEnd]

theorem Quiet.mono {state : LexState} {text after after' : Utf16} (h : Quiet state text after)
    (hafter : after'.head? ≠ some 38) : Quiet state text after' := by
  induction text generalizing state with
  | nil => trivial
  | cons ch rest ih =>
    refine ⟨fun hplain => ?_, ih h.2⟩
    obtain ⟨hseq, hpipe, hand⟩ := h.1 hplain
    refine ⟨hseq, hpipe, fun hch => ?_⟩
    cases rest with
    | nil => exact hafter
    | cons next rest => exact hand hch

theorem quiet_append {state : LexState} {text text' after : Utf16} :
    Quiet state (text ++ text') after ↔
      Quiet state text (text' ++ after) ∧ Quiet (lexEnd state text) text' after := by
  induction text generalizing state with
  | nil => simp [Quiet, lexEnd]
  | cons ch rest ih =>
    rw [List.cons_append, Quiet, Quiet, ih, List.append_assoc, and_assoc]
    rfl

/-! ## 2. White space -/

theorem space_ne {u : ℕ} (h : isSpaceUnit u = true) :
    u ≠ 39 ∧ u ≠ 34 ∧ u ≠ 92 ∧ u ≠ 59 ∧ u ≠ 38 ∧ u ≠ 124 := by
  refine ⟨?_, ?_, ?_, ?_, ?_, ?_⟩ <;> (rintro rfl; revert h; decide)

theorem quiet_space {text : Utf16} (h : AllSpace text) (state : LexState) (after : Utf16) :
    Quiet state text after := by
  induction text generalizing state with
  | nil => trivial
  | cons u rest ih =>
    have hu := space_ne (h u List.mem_cons_self)
    refine ⟨fun _ => ⟨hu.2.2.2.1, hu.2.2.2.2.2, fun h38 => absurd h38 hu.2.2.2.2.1⟩, ?_⟩
    exact ih (fun v hv => h v (List.mem_cons_of_mem u hv)) _

theorem lexEnd_plain_space {text : Utf16} (h : AllSpace text) : lexEnd .plain text = .plain := by
  induction text with
  | nil => rfl
  | cons u rest ih =>
    have hu := space_ne (h u List.mem_cons_self)
    have hstep : LexState.plain.step u = .plain := by
      simp [LexState.step, hu.1, hu.2.1, hu.2.2.1]
    change lexEnd (LexState.plain.step u) rest = .plain
    rw [hstep]
    exact ih fun v hv => h v (List.mem_cons_of_mem u hv)

/-- White space neither opens nor closes quotes. -/
theorem isOpen_space {text : Utf16} (h : AllSpace text) (state : LexState) :
    (lexEnd state text).isOpen = state.isOpen := by
  induction text generalizing state with
  | nil => rfl
  | cons u rest ih =>
    have hu := space_ne (h u List.mem_cons_self)
    change (lexEnd (state.step u) rest).isOpen = state.isOpen
    rw [ih fun v hv => h v (List.mem_cons_of_mem u hv)]
    cases state <;> simp [LexState.step, LexState.isOpen, hu.1, hu.2.1, hu.2.2.1]

/-- Where white space leads out of a segment, it was bare or after a backslash. -/
theorem bare_of_space {text : Utf16} (h : AllSpace text) {state : LexState}
    (hstate : state ≠ .second) (hend : lexEnd state text = .plain) :
    state = .plain ∨ state = .escape := by
  have hopen := isOpen_space h state
  rw [hend] at hopen
  cases state with
  | plain => exact Or.inl rfl
  | escape => exact Or.inr rfl
  | single => cases hopen
  | double => cases hopen
  | doubleEscape => cases hopen
  | second => exact absurd rfl hstate

theorem lexEnd_ne_second {state : LexState} (hstate : state ≠ .second) (text : Utf16) :
    lexEnd state text ≠ .second := by
  induction text generalizing state with
  | nil => exact hstate
  | cons ch rest ih => exact ih (step_ne_second state ch)

theorem isOpen_trim (text : Utf16) :
    (lexEnd .plain (trimUnits text)).isOpen = (lexEnd .plain text).isOpen := by
  obtain ⟨before, after, hbefore, hafter, htext⟩ := exists_trimUnits text
  conv_rhs => rw [htext, lexEnd_append, lexEnd_append, isOpen_space hafter,
    lexEnd_plain_space hbefore]

/-! ## 3. Segments -/

/-- The rest of a command, from a state on: the units up to the next operator, and the parts after
it; the state is the one at the end. -/
inductive Parted : LexState → Utf16 → List ShellPart → LexState → Prop
  | last {state : LexState} {text : Utf16} :
      Quiet state text [] → Parted state text [] (lexEnd state text)
  | next {state state' : LexState} {text : Utf16} {part : ShellPart} {rest : List ShellPart} :
      Quiet state text [] → lexEnd state text = .plain → part.join ≠ none →
        Parted .plain part.seg rest state' → Parted state text (part :: rest) state'

/-- The state after the second half of an operator is that after the operator. -/
def LexState.norm : LexState → LexState
  | .second => .plain
  | state => state

/-- **The lexer splits a command** at its operators, whatever the segment has so far. -/
theorem splitFrom_shape (text : Utf16) (state : LexState)
    (hstate : state = .second → text ≠ []) :
    ∃ seg others, (∀ current join, splitFrom state current join text =
        ⟨current ++ seg, join⟩ :: others) ∧
      (state ≠ .second → seg = [] ∨ seg.head? = text.head?) ∧
      Parted state.norm seg others (lexEnd state text) := by
  induction text generalizing state with
  | nil =>
    have hnorm : state.norm = state := by
      cases state with
      | second => exact absurd rfl (hstate rfl)
      | _ => rfl
    refine ⟨[], [], fun current join => by rw [splitFrom_nil, List.append_nil],
      fun _ => Or.inl rfl, ?_⟩
    rw [hnorm]
    exact .last trivial
  | cons ch rest ih =>
    by_cases hsecond : state = .second
    · subst hsecond
      obtain ⟨seg, others, hsplit, -, hparted⟩ := ih .plain (by simp)
      exact ⟨seg, others, fun current join => hsplit current join, fun h => absurd rfl h, hparted⟩
    have hnorm : state.norm = state := by
      cases state with
      | second => exact absurd rfl hsecond
      | _ => rfl
    rw [hnorm]
    by_cases hquiet : state = .plain → ch ≠ 59 ∧ ch ≠ 124 ∧ (ch = 38 → rest.head? ≠ some 38)
    · obtain ⟨seg, others, hsplit, hhead, hparted⟩ :=
        ih (state.step ch) (fun h => absurd h (step_ne_second state ch))
      have hhead := hhead (step_ne_second state ch)
      have hnext : (state.step ch).norm = state.step ch := by
        cases hstep : state.step ch with
        | second => exact absurd hstep (step_ne_second state ch)
        | _ => rfl
      have hunit : state = .plain → ch ≠ 59 ∧ ch ≠ 124 ∧
          (ch = 38 → (seg ++ []).head? ≠ some 38) := by
        intro hplain
        obtain ⟨hseq, hpipe, hand⟩ := hquiet hplain
        refine ⟨hseq, hpipe, fun hch => ?_⟩
        rw [List.append_nil]
        rcases hhead with hnil | hhead
        · rw [hnil]
          simp
        · rw [hhead]
          exact hand hch
      refine ⟨ch :: seg, others, fun current join => ?_, fun _ => Or.inr rfl, ?_⟩
      · rw [splitFrom_cons hsecond hquiet, hsplit, List.append_assoc, List.singleton_append]
      · rw [hnext] at hparted
        change Parted state (ch :: seg) others (lexEnd (state.step ch) rest)
        generalize hfinal : lexEnd (state.step ch) rest = final at hparted ⊢
        cases hparted with
        | last h => exact .last ⟨hunit, h⟩
        | next h hend hjoin hrest => exact .next ⟨hunit, h⟩ hend hjoin hrest
    · -- the unit begins an operator
      rw [Classical.not_imp] at hquiet
      obtain ⟨rfl, hop⟩ := hquiet
      have hshape : ∀ (next : LexState) (join : Join), (next = .second → rest ≠ []) →
          (∀ current pending, splitFrom .plain current pending (ch :: rest) =
            ⟨current, pending⟩ :: splitFrom next [] (some join) rest) →
          next.norm = .plain → lexEnd .plain (ch :: rest) = lexEnd next rest →
          ∃ seg others, (∀ current join, splitFrom .plain current join (ch :: rest) =
              ⟨current ++ seg, join⟩ :: others) ∧
            (LexState.plain ≠ .second → seg = [] ∨ seg.head? = (ch :: rest).head?) ∧
            Parted .plain seg others (lexEnd .plain (ch :: rest)) := by
        intro next join hne hsplit hnext hend
        obtain ⟨seg, others, hrest, -, hparted⟩ := ih next hne
        refine ⟨[], ⟨seg, some join⟩ :: others, fun current pending => ?_, fun _ => Or.inl rfl, ?_⟩
        · rw [hsplit, hrest, List.append_nil, List.nil_append]
        · rw [hend]
          rw [hnext] at hparted
          exact .next trivial rfl (by simp) hparted
      have hsecond : ∀ u, LexState.plain.step u = .plain → rest.head? = some u → rest ≠ [] ∧
          lexEnd .plain rest = lexEnd .second rest := by
        intro u hstep hhead
        obtain ⟨tail, rfl⟩ : ∃ tail, rest = u :: tail := List.head?_eq_some_iff.mp hhead
        refine ⟨by simp, ?_⟩
        change lexEnd (LexState.plain.step u) tail = lexEnd .plain tail
        rw [hstep]
      by_cases hseq : ch = 59
      · subst hseq
        exact hshape .plain .seq (by simp) (fun _ _ => rfl) rfl rfl
      by_cases hand : ch = 38 ∧ rest.head? = some 38
      · obtain ⟨rfl, hhead⟩ := hand
        obtain ⟨hne, hend⟩ := hsecond 38 rfl hhead
        refine hshape .second .and (fun _ => hne) (fun _ _ => ?_) rfl hend
        rw [splitFrom, if_neg (by decide), if_pos ⟨rfl, hhead⟩]
      by_cases hor : ch = 124 ∧ rest.head? = some 124
      · obtain ⟨rfl, hhead⟩ := hor
        obtain ⟨hne, hend⟩ := hsecond 124 rfl hhead
        refine hshape .second .or (fun _ => hne) (fun _ _ => ?_) rfl hend
        rw [splitFrom, if_neg (by decide), if_neg (by simp), if_pos ⟨rfl, hhead⟩]
      by_cases hpipe : ch = 124
      · subst hpipe
        refine hshape .plain .pipe (by simp) (fun _ _ => ?_) rfl rfl
        rw [splitFrom, if_neg (by decide), if_neg (by simp), if_neg hor, if_pos rfl]
      · exact absurd ⟨hseq, hpipe, fun hch hhead => hand ⟨hch, hhead⟩⟩ hop

/-- A segment that another one follows. -/
def Closed (seg : Utf16) : Prop := Quiet .plain seg [] ∧ lexEnd .plain seg = .plain

/-- **What the parts of a command are**: only the last may end inside of quotes or after a
backslash, and only the first has no operator before it. -/
theorem Parted.parts {seg : Utf16} {others : List ShellPart} {final : LexState}
    (h : Parted .plain seg others final) (join : Option Join) :
    (∀ part ∈ (⟨seg, join⟩ :: others : List ShellPart).dropLast, Closed part.seg) ∧
      (∀ part ∈ (⟨seg, join⟩ :: others : List ShellPart), Quiet .plain part.seg []) ∧
      (∀ part ∈ others, part.join ≠ none) ∧
      ∃ last, (⟨seg, join⟩ :: others : List ShellPart).getLast? = some last ∧
        lexEnd .plain last.seg = final := by
  induction others generalizing seg join with
  | nil =>
    cases h with
    | last hquiet => exact ⟨by simp, by simpa using hquiet, by simp, ⟨seg, join⟩, rfl, rfl⟩
  | cons part rest ih =>
    cases h with
    | next hquiet hend hjoin hrest =>
      obtain ⟨hclosed, hquiets, hjoins, last, hlast, hfinal⟩ := ih hrest part.join
      refine ⟨?_, ?_, ?_, last, ?_, hfinal⟩
      · intro p hp
        rw [List.dropLast_cons_of_ne_nil (by simp)] at hp
        rcases List.mem_cons.mp hp with rfl | hp
        · exact ⟨hquiet, hend⟩
        · exact hclosed p hp
      · intro p hp
        rcases List.mem_cons.mp hp with rfl | hp
        · exact hquiet
        · exact hquiets p hp
      · intro p hp
        rcases List.mem_cons.mp hp with rfl | hp
        · exact hjoin
        · exact hjoins p hp
      · rw [List.getLast?_cons_cons]
        exact hlast

/-! ## 4. Joined again -/

/-- A part as the other functions read it. -/
def normPart (part : ShellPart) : ShellPart := ⟨trimUnits part.seg, part.join⟩

/-- White space around a segment makes no difference. -/
theorem normPart_between {before after : Utf16} (hbefore : AllSpace before)
    (hafter : AllSpace after) (seg : Utf16) (join : Option Join) :
    normPart ⟨before ++ (trimUnits seg ++ after), join⟩ = normPart ⟨seg, join⟩ := by
  rw [normPart, normPart]
  dsimp only
  rw [trimUnits_between hbefore hafter, trimUnits_trimUnits]

/-- An operator between blanks. -/
theorem splitFrom_join (join : Join) (current : Utf16) (pending : Option Join) (rest : Utf16) :
    splitFrom .plain current pending (joinText (some join) ++ 32 :: rest) =
      ⟨current, pending⟩ :: splitFrom .plain [32] (some join) rest := by
  cases join <;> simp [joinText, splitFrom, LexState.step]

/-- What trimming leaves of a segment. -/
theorem quiet_trim {seg : Utf16} (h : Quiet .plain seg []) : Quiet .plain (trimUnits seg) [] := by
  obtain ⟨before, after, hbefore, hafter, hseg⟩ := exists_trimUnits seg
  rw [hseg, quiet_append, lexEnd_plain_space hbefore, quiet_append] at h
  exact h.2.1.mono (by simp)

theorem lexEnd_trim {seg : Utf16} (h : lexEnd .plain seg = .plain) :
    lexEnd .plain (trimUnits seg) = .plain ∨ lexEnd .plain (trimUnits seg) = .escape := by
  obtain ⟨before, after, hbefore, hafter, hseg⟩ := exists_trimUnits seg
  rw [hseg, lexEnd_append, lexEnd_append, lexEnd_plain_space hbefore] at h
  exact bare_of_space hafter (lexEnd_ne_second (by simp) _) h

theorem rejoin_cons_cons (part part' : ShellPart) (rest : List ShellPart) :
    rejoin (part :: part' :: rest) =
      trimUnits part.seg ++ 32 :: (joinText part'.join ++ 32 :: rejoin (part' :: rest)) := by
  simp [rejoin]

/-- **The joined segments split again** into the segments. -/
theorem splitFrom_rejoin {part : ShellPart} {rest : List ShellPart} {current : Utf16}
    (hcurrent : AllSpace current) (pending : Option Join)
    (hclosed : ∀ p ∈ (part :: rest).dropLast, Closed p.seg)
    (hquiet : ∀ p ∈ part :: rest, Quiet .plain p.seg [])
    (hjoins : ∀ p ∈ rest, p.join ≠ none) :
    (splitFrom .plain current pending (rejoin (part :: rest))).map normPart =
      ⟨trimUnits part.seg, pending⟩ :: rest.map normPart := by
  have hseg := quiet_trim (hquiet part List.mem_cons_self)
  induction rest generalizing part current pending with
  | nil =>
    have hsplit := splitFrom_quiet (by simp) hseg current pending
    rw [List.append_nil, splitFrom_nil] at hsplit
    rw [rejoin, List.flatMap_nil, List.append_nil, hsplit, List.map_singleton]
    have hnorm := @normPart_between _ [] hcurrent (by simp [AllSpace]) part.seg pending
    rw [List.append_nil] at hnorm
    rw [hnorm]
    rfl
  | cons part' rest ih =>
    obtain ⟨join, hjoin⟩ := Option.ne_none_iff_exists'.mp (hjoins part' List.mem_cons_self)
    have hpart : Closed part.seg := hclosed part (by simp)
    have hbare := lexEnd_trim hpart.2
    have hsplit := splitFrom_quiet (by simp) (@Quiet.mono _ _ _
      (32 :: (joinText part'.join ++ 32 :: rejoin (part' :: rest))) hseg (by simp)) current pending
    have hspace : ∀ state : LexState, state = .plain ∨ state = .escape → ∀ current text,
        splitFrom state current pending (32 :: text) =
          splitFrom .plain (current ++ [32]) pending text := by
      intro state hstate current text
      rcases hstate with rfl | rfl
      · exact splitFrom_cons (by simp) (by simp) current pending
      · rfl
    have hrest := @ih part' [32] (by simp [AllSpace, isSpaceUnit]) (some join)
      (fun p hp => hclosed p (by
        rw [List.dropLast_cons_of_ne_nil (by simp)]
        exact List.mem_cons_of_mem part hp))
      (fun p hp => hquiet p (List.mem_cons_of_mem part hp))
      (fun p hp => hjoins p (List.mem_cons_of_mem part' hp))
      (quiet_trim (hquiet part' (by simp)))
    rw [rejoin_cons_cons, hsplit, hspace _ hbare, hjoin, splitFrom_join, List.map_cons, hrest,
      List.append_assoc, normPart_between hcurrent (by simp [AllSpace, isSpaceUnit])]
    simp [normPart, hjoin]

theorem lexEnd_rejoin {part : ShellPart} {rest : List ShellPart}
    (hclosed : ∀ p ∈ (part :: rest).dropLast, Closed p.seg) (hjoins : ∀ p ∈ rest, p.join ≠ none) :
    lexEnd .plain (rejoin (part :: rest)) =
      lexEnd .plain (trimUnits ((part :: rest).getLast (by simp)).seg) := by
  induction rest generalizing part with
  | nil => simp [rejoin]
  | cons part' rest ih =>
    obtain ⟨join, hjoin⟩ := Option.ne_none_iff_exists'.mp (hjoins part' List.mem_cons_self)
    have hpart : Closed part.seg := hclosed part (by simp)
    have hjoined : ∀ state : LexState, state = .plain ∨ state = .escape → ∀ text,
        lexEnd state (32 :: (joinText (some join) ++ 32 :: text)) = lexEnd .plain text := by
      intro state hstate text
      rcases hstate with rfl | rfl <;> cases join <;> rfl
    rw [rejoin_cons_cons, lexEnd_append, hjoin, hjoined _ (lexEnd_trim hpart.2),
      List.getLast_cons (by simp)]
    refine ih (fun p hp => hclosed p ?_) fun p hp => hjoins p (List.mem_cons_of_mem part' hp)
    rw [List.dropLast_cons_of_ne_nil (by simp)]
    exact List.mem_cons_of_mem part hp

/-! ## 5. Trimmed commands -/

/-- White space after a command goes to its last segment. -/
theorem splitFrom_append_space {after : Utf16} (hafter : AllSpace after) (text : Utf16)
    {state : LexState} (hstate : state = .second → text ≠ []) (current : Utf16)
    (join : Option Join) :
    (splitFrom state current join (text ++ after)).map normPart =
      (splitFrom state current join text).map normPart := by
  induction text generalizing state current join with
  | nil =>
    have hne : state ≠ .second := fun h => hstate h rfl
    have hsplit := splitFrom_quiet hne (quiet_space hafter state []) current join
    rw [List.append_nil, splitFrom_nil] at hsplit
    rw [List.nil_append, hsplit, splitFrom_nil, List.map_singleton, List.map_singleton, normPart,
      normPart]
    have htrim := @trimUnits_between [] _ (by simp [AllSpace]) hafter current
    rw [List.nil_append] at htrim
    dsimp only
    rw [htrim]
  | cons ch rest ih =>
    have hhead : ∀ u, isSpaceUnit u = false →
        ((rest ++ after).head? = some u ↔ rest.head? = some u) := by
      intro u hu
      cases rest with
      | nil =>
        refine ⟨fun h => ?_, fun h => by cases h⟩
        rw [hafter u (List.mem_of_mem_head? h)] at hu
        cases hu
      | cons next rest => exact Iff.rfl
    have hne : ∀ u, rest.head? = some u → rest ≠ [] := by
      rintro u h rfl
      cases h
    rw [List.cons_append]
    cases state with
    | plain =>
      rw [splitFrom, splitFrom]
      simp only [hhead 38 (by decide), hhead 124 (by decide)]
      split_ifs with hseq hand hor hpipe
      · rw [List.map_cons, List.map_cons, ih (by simp)]
      · rw [List.map_cons, List.map_cons, ih fun _ => hne _ hand.2]
      · rw [List.map_cons, List.map_cons, ih fun _ => hne _ hor.2]
      · rw [List.map_cons, List.map_cons, ih (by simp)]
      · exact ih (fun h => absurd h (step_ne_second _ _)) _ _
    | second => exact ih (by simp) current join
    | escape => exact ih (by simp [LexState.step]) _ _
    | single => exact ih (fun h => absurd h (step_ne_second .single ch)) _ _
    | double => exact ih (fun h => absurd h (step_ne_second .double ch)) _ _
    | doubleEscape => exact ih (by simp [LexState.step]) _ _

/-- **A trimmed command** splits like the command. -/
theorem split_trim (command : Utf16) :
    (splitShellSubcommandsWithJoins (trimUnits command)).map normPart =
      (splitShellSubcommandsWithJoins command).map normPart := by
  obtain ⟨before, after, hbefore, hafter, hcommand⟩ := exists_trimUnits command
  generalize trimUnits command = text at hcommand ⊢
  subst hcommand
  unfold splitShellSubcommandsWithJoins
  rw [splitFrom_quiet (by simp) (quiet_space hbefore .plain _), lexEnd_plain_space hbefore,
    List.nil_append, splitFrom_append_space hafter text (by simp)]
  obtain ⟨seg, others, hsplit, -⟩ := splitFrom_shape text .plain (by simp)
  rw [hsplit, hsplit, List.map_cons, List.map_cons, normPart, normPart, List.nil_append]
  have htrim := @trimUnits_between _ [] hbefore (by simp [AllSpace]) seg
  rw [List.append_nil] at htrim
  dsimp only
  rw [htrim]

/-! ## 6. The parts that are kept -/

section Kept

variable (host : ShellHost)

/-- A subcommand that is kept. -/
def isKept (part : ShellPart) : Bool := !isNoopCdToCwd host (trimUnits part.seg)

/-- The first part is joined to nothing, and a command has a part. -/
def resetFirst : List ShellPart → List ShellPart
  | [] => [⟨[], none⟩]
  | part :: rest => ⟨part.seg, none⟩ :: rest

/-- The segments of a command. -/
theorem split_parts (command : Utf16) :
    ∃ first others, splitShellSubcommandsWithJoins command = ⟨first, none⟩ :: others ∧
      (∀ part ∈ (splitShellSubcommandsWithJoins command).dropLast, Closed part.seg) ∧
      (∀ part ∈ splitShellSubcommandsWithJoins command, Quiet .plain part.seg []) ∧
      (∀ part ∈ others, part.join ≠ none) ∧
      ∃ last, (splitShellSubcommandsWithJoins command).getLast? = some last ∧
        lexEnd .plain last.seg = lexEnd .plain command := by
  obtain ⟨seg, others, hsplit, -, hparted⟩ := splitFrom_shape command .plain (by simp)
  have hparts := hparted.parts none
  have heq : splitShellSubcommandsWithJoins command = ⟨seg, none⟩ :: others := hsplit [] none
  exact ⟨seg, others, heq, by rw [heq]; exact hparts.1, by rw [heq]; exact hparts.2.1,
    hparts.2.2.1, by rw [heq]; exact hparts.2.2.2⟩

theorem keptParts_append (front : List ShellPart) (last : ShellPart) :
    keptParts host (front ++ [last]) =
      keptParts host front ++ if isKept host last then [last] else [] := by
  unfold keptParts isKept
  rw [List.filter_append, List.filter_singleton]
  cases isNoopCdToCwd host (trimUnits last.seg) <;> rfl

/-- **The command that is given** splits into the segments that were kept, and ends inside of quotes
only where the last segment did and was kept. -/
theorem split_removed (command : Utf16) :
    (splitShellSubcommandsWithJoins (removeNoopCdSubcommands host command)).map normPart =
        resetFirst ((keptParts host (splitShellSubcommandsWithJoins command)).map normPart) ∧
      (lexEnd .plain (removeNoopCdSubcommands host command)).isOpen =
        ((lexEnd .plain command).isOpen &&
          ((splitShellSubcommandsWithJoins command).getLast?.map (isKept host)).getD false) := by
  obtain ⟨first, others, heq, hclosed, hquiet, hjoins, last, hlast, hend⟩ := split_parts command
  have hlastParts := List.dropLast_append_getLast? last hlast
  generalize hparts : splitShellSubcommandsWithJoins command = parts at *
  unfold removeNoopCdSubcommands
  rw [hparts]
  dsimp only
  split
  case isTrue hlength =>
    have hevery := List.length_filter_eq_length_iff.mp hlength
    have hall : keptParts host parts = parts := List.filter_eq_self.mpr hevery
    have hkept : isKept host last = true := hevery last (List.mem_of_getLast? hlast)
    rw [hall, hparts, hlast, heq, Option.map_some, Option.getD_some, hkept, Bool.and_true]
    exact ⟨rfl, rfl⟩
  case isFalse =>
    have hfront := keptParts_append host parts.dropLast last
    rw [hlastParts] at hfront
    rw [split_trim, isOpen_trim, hlast, Option.map_some, Option.getD_some]
    have hsubset : ∀ p ∈ keptParts host parts.dropLast, Closed p.seg :=
      fun p hp => hclosed p (List.mem_filter.mp hp).1
    have hkeptClosed : ∀ p ∈ (keptParts host parts).dropLast, Closed p.seg := by
      intro p hp
      rw [hfront] at hp
      cases hkept : isKept host last with
      | true =>
        rw [hkept, if_pos rfl, List.dropLast_concat] at hp
        exact hsubset p hp
      | false =>
        rw [hkept, if_neg Bool.false_ne_true, List.append_nil] at hp
        exact hsubset p (List.mem_of_mem_dropLast hp)
    have hkeptQuiet : ∀ p ∈ keptParts host parts, Quiet .plain p.seg [] :=
      fun p hp => hquiet p (List.mem_filter.mp hp).1
    have hkeptJoins : ∀ p ∈ (keptParts host parts).tail, p.join ≠ none := by
      intro p hp
      rw [heq, keptParts, List.filter_cons] at hp
      split at hp
      · exact hjoins p (List.mem_filter.mp hp).1
      · exact hjoins p (List.mem_filter.mp (List.mem_of_mem_tail hp)).1
    cases hkept : keptParts host parts with
    | nil =>
      rw [hkept] at hfront
      have hgone : isKept host last = false := by
        by_contra h
        rw [if_pos (by simpa using h)] at hfront
        simp at hfront
      rw [hgone, Bool.and_false]
      exact ⟨rfl, rfl⟩
    | cons part rest =>
      rw [hkept] at hkeptClosed hkeptQuiet hkeptJoins hfront
      refine ⟨splitFrom_rejoin (by simp [AllSpace]) none hkeptClosed hkeptQuiet hkeptJoins, ?_⟩
      rw [lexEnd_rejoin hkeptClosed hkeptJoins, isOpen_trim]
      cases hkeep : isKept host last with
      | true =>
        have hgetLast : (part :: rest).getLast (by simp) = last := by
          simp only [hfront, hkeep, if_true, List.getLast_append_singleton]
        rw [hgetLast, hend, Bool.and_true]
      | false =>
        have hmem : (part :: rest).getLast (by simp) ∈ keptParts host parts.dropLast := by
          rw [hkeep, if_neg Bool.false_ne_true, List.append_nil] at hfront
          rw [← hfront]
          exact List.getLast_mem _
        rw [(hsubset _ hmem).2, Bool.and_false]
        rfl

end Kept

/-! ## 7. What the shell runs -/

section Shell

variable (host : ShellHost) (command : Utf16)

/-- A `cd` to the working directory stands at the place. -/
def noopAt (place : ℕ) : Bool :=
  ((splitShellSubcommandsWithJoins command)[place]?.map fun part => !isKept host part).getD false

/-- The places of the parts that are kept. -/
def keptPlaces : List ℕ :=
  ((splitShellSubcommandsWithJoins command).zipIdx.filter fun p => isKept host p.1).map Prod.snd

/-- **The meaning is preserved**: whatever the exit statuses, where each `cd` succeeds the command
that is given runs what the command would have run besides, with the same exit status; or the shell
refuses both. -/
def PreservesMeaning : Prop :=
  ∀ outcome : ℕ → ℕ, (∀ place, noopAt host command place = true → outcome place = 0) →
    (shellRun (fun k => outcome ((keptPlaces host command).getD k 0))
        (removeNoopCdSubcommands host command)).map
          (fun run => (run.1.map fun k => (keptPlaces host command).getD k 0, run.2)) =
      (shellRun outcome command).map
        (fun run => (run.1.filter (fun place => !noopAt host command place), run.2))

/-- The command that is given would end inside of quotes. -/
def keepsOpen : Bool :=
  (lexEnd .plain command).isOpen &&
    ((splitShellSubcommandsWithJoins command).getLast?.map (isKept host)).getD false

/-- **The condition**: where the shell refuses the command, the parts that are kept are refused as
well; else the joins of the removed parts make no difference. -/
def NoopRemovalSafe : Prop :=
  if shellRefuses (lexEnd .plain command).isOpen (splitShellSubcommandsWithJoins command) then
    shellRefuses (keepsOpen host command)
      (keptParts host (splitShellSubcommandsWithJoins command)) = true
  else RemovalSafe (noopAt host command) true (shellLinks (splitShellSubcommandsWithJoins command))

variable {host command}

theorem isBlankPart_norm (part : ShellPart) : isBlankPart (normPart part) = isBlankPart part := by
  unfold isBlankPart normPart
  rw [trimUnits_trimUnits]

theorem shellRefuses_norm (isOpen : Bool) (parts : List ShellPart) :
    shellRefuses isOpen (parts.map normPart) = shellRefuses isOpen parts := by
  unfold shellRefuses
  rw [← List.map_dropLast, List.any_map, List.getLast?_map, List.length_map]
  have hblank : isBlankPart ∘ normPart = isBlankPart := funext isBlankPart_norm
  rw [hblank]
  cases parts.getLast? with
  | none => rfl
  | some last =>
    rw [Option.map_some]
    dsimp only
    rw [isBlankPart_norm]
    rfl

theorem shellLinks_norm (parts : List ShellPart) :
    shellLinks (parts.map normPart) = shellLinks parts := by
  unfold shellLinks
  rw [List.getLast?_map, Option.map_map, List.zipIdx_map, List.map_map]
  have hblank : isBlankPart ∘ normPart = isBlankPart := funext isBlankPart_norm
  rw [hblank]
  rfl

theorem shellRefuses_resetFirst (isOpen : Bool) (parts : List ShellPart) :
    shellRefuses isOpen (resetFirst parts) = shellRefuses isOpen parts := by
  cases parts with
  | nil => simp [resetFirst, shellRefuses]
  | cons part rest =>
    cases rest with
    | nil => simp [resetFirst, shellRefuses]
    | cons next rest =>
      simp only [shellRefuses, resetFirst, List.dropLast_cons_cons, List.any_cons,
        List.getLast?_cons_cons, List.length_cons]
      rfl

theorem shellLinks_resetFirst (parts : List ShellPart) :
    shellLinks (resetFirst parts) = headSeq (shellLinks parts) := by
  cases parts with
  | nil => rfl
  | cons part rest =>
    cases rest with
    | nil =>
      unfold shellLinks resetFirst
      simp only [List.getLast?_singleton, Option.map_some, Option.getD_some, List.zipIdx_singleton,
        List.map_singleton, List.dropLast_singleton]
      have hblank : isBlankPart ⟨part.seg, none⟩ = isBlankPart part := rfl
      rw [hblank]
      split <;> rfl
    | cons next rest =>
      simp only [shellLinks, resetFirst, List.getLast?_cons_cons, List.zipIdx_cons, List.map_cons,
        List.dropLast_cons_cons]
      split <;> rfl

theorem isKept_of_isBlank {part : ShellPart} (h : isBlankPart part = true) :
    isKept host part = true := by
  have hnil : trimUnits part.seg = [] := List.isEmpty_iff.mp h
  unfold isKept
  rw [hnil]
  rfl

/-- The parts before the last one that is kept are parts before the last. -/
theorem mem_dropLast_of_kept {parts : List ShellPart} {part : ShellPart}
    (h : part ∈ (keptParts host parts).dropLast) : part ∈ parts.dropLast := by
  rcases List.eq_nil_or_concat parts with rfl | ⟨front, last, rfl⟩
  · simp [keptParts] at h
  · rw [List.concat_eq_append, keptParts_append] at h
    rw [List.concat_eq_append, List.dropLast_concat]
    split at h
    · rw [List.dropLast_concat] at h
      exact (List.mem_filter.mp h).1
    · rw [List.append_nil] at h
      exact (List.mem_filter.mp (List.mem_of_mem_dropLast h)).1

/-- Where the shell does not refuse a command, a blank part that is kept is its last. -/
theorem last_of_blank {isOpen : Bool} {parts : List ShellPart}
    (haccepts : shellRefuses isOpen parts = false) {last : ShellPart}
    (hlast : (keptParts host parts).getLast? = some last) (hblank : isBlankPart last = true) :
    parts.getLast? = some last := by
  unfold shellRefuses at haccepts
  rw [Bool.or_eq_false_iff, Bool.or_eq_false_iff, List.any_eq_false] at haccepts
  rcases List.eq_nil_or_concat parts with rfl | ⟨front, final, rfl⟩
  · simp [keptParts] at hlast
  · rw [List.concat_eq_append] at haccepts hlast ⊢
    rw [keptParts_append] at hlast
    rw [List.dropLast_concat] at haccepts
    split at hlast
    · simpa using hlast
    · rw [List.append_nil] at hlast
      have hmem := (List.mem_filter.mp (List.mem_of_getLast? hlast)).1
      exact absurd hblank (haccepts.1.2 last hmem)

/-- **The shell does not refuse** the parts that are kept, where it accepts all. -/
theorem shellRefuses_kept {isOpen keptOpen : Bool} {parts : List ShellPart}
    (haccepts : shellRefuses isOpen parts = false) (hopen : keptOpen = true → isOpen = true) :
    shellRefuses keptOpen (keptParts host parts) = false := by
  have hlast := fun last => @last_of_blank host _ _ haccepts last
  unfold shellRefuses at haccepts ⊢
  rw [Bool.or_eq_false_iff, Bool.or_eq_false_iff, List.any_eq_false] at haccepts ⊢
  obtain ⟨⟨hclosed, hblank⟩, hfinal⟩ := haccepts
  refine ⟨⟨?_, fun part hpart => hblank part (mem_dropLast_of_kept hpart)⟩, ?_⟩
  · cases keptOpen with
    | true => rw [hopen rfl] at hclosed; exact hclosed
    | false => rfl
  · cases hgetLast : (keptParts host parts).getLast? with
    | none => rfl
    | some last =>
      dsimp only
      cases hblankLast : isBlankPart last with
      | false => rfl
      | true =>
        rw [hlast last hgetLast hblankLast] at hfinal
        dsimp only at hfinal
        rw [hblankLast, Bool.true_and] at hfinal
        have hlength : (keptParts host parts).length ≤ parts.length := List.length_filter_le _ _
        rw [Bool.true_and, Bool.and_eq_false_iff] at *
        rcases hfinal with hshort | hseq
        · left
          simp only [decide_eq_false_iff_not] at hshort ⊢
          omega
        · exact Or.inr hseq

/-- The kept ones of a list, by their places in it. -/
theorem zipIdx_places {α : Type*} (pairs : List (α × ℕ)) :
    ((pairs.map Prod.fst).zipIdx).map (fun q => (q.1, (pairs.map Prod.snd).getD q.2 0)) =
      pairs := by
  refine List.ext_getElem (by simp) fun k hk hk' => ?_
  have hplace : (pairs.map Prod.snd).getD k 0 = pairs[k].2 := by
    rw [List.getD_eq_getElem _ _ (by simpa using hk'), List.getElem_map]
  rw [List.getElem_map, List.getElem_zipIdx]
  simp only [List.getElem_map, Nat.zero_add, hplace]

theorem noopAt_of_mem {p : ShellPart × ℕ}
    (hp : p ∈ (splitShellSubcommandsWithJoins command).zipIdx) :
    noopAt host command p.2 = !isKept host p.1 := by
  have hget := List.mem_zipIdx_iff_getElem?.mp hp
  unfold noopAt
  rw [hget]
  rfl

/-- **The chain of the command that is given** is the chain of the commands that are kept. -/
theorem shellLinks_kept {isOpen : Bool}
    (haccepts : shellRefuses isOpen (splitShellSubcommandsWithJoins command) = false) :
    (shellLinks (keptParts host (splitShellSubcommandsWithJoins command))).map
        (fun link => ⟨link.join, (keptPlaces host command).getD link.command 0⟩) =
      keptLinks (noopAt host command) (shellLinks (splitShellSubcommandsWithJoins command)) := by
  have hnoop := fun p => @noopAt_of_mem host command p
  have hlast := fun last => @last_of_blank host _ _ haccepts last
  unfold keptPlaces
  generalize splitShellSubcommandsWithJoins command = parts at *
  generalize hpairs : parts.zipIdx.filter (fun p => isKept host p.1) = pairs
  have hkept : keptParts host parts = pairs.map Prod.fst := by
    rw [← hpairs, ← List.zipIdx_map_fst 0 parts]
    unfold keptParts
    rw [List.filter_map, List.zipIdx_map_fst]
    rfl
  have hlinks : ((keptParts host parts).zipIdx.map fun p =>
        (⟨p.1.join.getD .seq, p.2⟩ : Link ℕ)).map
          (fun link => ⟨link.join, (pairs.map Prod.snd).getD link.command 0⟩) =
      keptLinks (noopAt host command) (parts.zipIdx.map fun p => ⟨p.1.join.getD .seq, p.2⟩) := by
    have hplaces := congrArg (List.map fun p : ShellPart × ℕ =>
      (⟨p.1.join.getD .seq, p.2⟩ : Link ℕ)) (zipIdx_places pairs)
    rw [List.map_map, ← hkept] at hplaces
    rw [List.map_map]
    refine hplaces.trans ?_
    unfold keptLinks
    rw [List.filter_map, ← hpairs]
    refine congrArg _ (List.filter_congr fun p hp => ?_)
    rw [Function.comp_apply, hnoop p hp, Bool.not_not]
  unfold shellLinks
  dsimp only
  rcases List.eq_nil_or_concat parts with rfl | ⟨front, last, rfl⟩
  · rfl
  rw [List.concat_eq_append] at *
  have hgetLast : (front ++ [last]).getLast? = some last := by simp
  rw [hgetLast, Option.map_some, Option.getD_some]
  cases hblank : isBlankPart last with
  | true =>
    have hkeep := @isKept_of_isBlank host _ hblank
    have hlastKept : (keptParts host (front ++ [last])).getLast? = some last := by
      rw [keptParts_append, if_pos hkeep]
      simp
    rw [hlastKept, Option.map_some, Option.getD_some, hblank, if_pos rfl, if_pos rfl,
      List.map_dropLast, hlinks, List.zipIdx_append, List.map_append, List.zipIdx_singleton,
      List.map_singleton, List.dropLast_concat]
    unfold keptLinks
    have hplace := hnoop (last, front.length) (by simp [List.zipIdx_append])
    rw [List.filter_append, List.filter_cons_of_pos (by simp [hplace, hkeep]), List.filter_nil,
      List.dropLast_concat]
  | false =>
    rw [if_neg Bool.false_ne_true, ← hlinks]
    cases hlastKept : (keptParts host (front ++ [last])).getLast? with
    | none =>
      rw [List.getLast?_eq_none_iff.mp hlastKept]
      rfl
    | some final =>
      have hfinal : isBlankPart final = false := by
        by_contra hnot
        have hsame := hlast final hlastKept (by simpa using hnot)
        rw [hgetLast, Option.some.injEq] at hsame
        rw [hsame] at hblank
        exact hnot hblank
      rw [Option.map_some, Option.getD_some, hfinal, if_neg Bool.false_ne_true]

/-- The places of a chain are distinct. -/
theorem nodup_shellLinks (parts : List ShellPart) :
    ((shellLinks parts).map Link.command).Nodup := by
  have hall : ((parts.zipIdx.map fun p => (⟨p.1.join.getD .seq, p.2⟩ : Link ℕ)).map
      Link.command).Nodup := by
    rw [List.map_map]
    change (parts.zipIdx.map Prod.snd).Nodup
    rw [List.zipIdx_map_snd]
    exact List.nodup_range'
  unfold shellLinks
  dsimp only
  split
  · exact hall.sublist ((List.dropLast_sublist _).map _)
  · exact hall

theorem headSeq_map {α β : Type*} (f : α → β) (links : List (Link α)) :
    (headSeq links).map (fun link => (⟨link.join, f link.command⟩ : Link β)) =
      headSeq (links.map fun link => ⟨link.join, f link.command⟩) := by
  cases links <;> rfl

theorem finalCommand_eq : finalCommand host command = removeNoopCdSubcommands host command := by
  unfold finalCommand
  split
  · rfl
  case isFalse hnone =>
    have hall : ∀ part ∈ splitShellSubcommandsWithJoins command, isKept host part = true := by
      intro part hpart
      cases hblank : isBlankPart part with
      | true => exact isKept_of_isBlank hblank
      | false =>
        unfold isKept
        by_contra hnoop
        refine hnone (List.any_eq_true.mpr ⟨trimUnits part.seg, ?_, by simpa using hnoop⟩)
        refine List.mem_filter.mpr ⟨List.mem_map_of_mem hpart, ?_⟩
        rw [show (trimUnits part.seg).isEmpty = false from hblank]
        rfl
    unfold removeNoopCdSubcommands
    dsimp only
    rw [if_pos]
    exact List.length_filter_eq_length_iff.mpr hall

end Shell

/-- **Removing a `cd` to the working directory**: the command that `authorizeBash` hands on splits
into the segments that were kept, each after its operator; and it means the same exactly where the
joins of the removed segments make no difference. -/
theorem noop_cd_removal_exact (host : ShellHost) (command : Utf16) :
    (finalCommand host command = removeNoopCdSubcommands host command ∧
      (splitShellSubcommandsWithJoins (removeNoopCdSubcommands host command)).map normPart =
        resetFirst ((keptParts host (splitShellSubcommandsWithJoins command)).map normPart)) ∧
    (PreservesMeaning host command ↔ NoopRemovalSafe host command) := by
  obtain ⟨hsplit, hopen⟩ := split_removed host command
  refine ⟨⟨finalCommand_eq, hsplit⟩, ?_⟩
  have hrefuses : shellRefuses (lexEnd .plain (removeNoopCdSubcommands host command)).isOpen
        (splitShellSubcommandsWithJoins (removeNoopCdSubcommands host command)) =
      shellRefuses (keepsOpen host command)
        (keptParts host (splitShellSubcommandsWithJoins command)) := by
    rw [hopen, ← shellRefuses_norm _ (splitShellSubcommandsWithJoins _), hsplit,
      shellRefuses_resetFirst, shellRefuses_norm]
    rfl
  have hlinks : shellLinks (splitShellSubcommandsWithJoins (removeNoopCdSubcommands host command)) =
      headSeq (shellLinks (keptParts host (splitShellSubcommandsWithJoins command))) := by
    rw [← shellLinks_norm (splitShellSubcommandsWithJoins _), hsplit, shellLinks_resetFirst,
      shellLinks_norm]
  unfold PreservesMeaning NoopRemovalSafe shellRun
  dsimp only
  rw [hrefuses, hlinks]
  cases haccepts : shellRefuses (lexEnd .plain command).isOpen
      (splitShellSubcommandsWithJoins command) with
  | true =>
    simp only [if_true, Option.map_none]
    constructor
    · intro h
      have hnone := h (fun _ => 0) fun _ _ => rfl
      by_contra hnot
      rw [if_neg hnot] at hnone
      cases hnone
    · intro hrefused outcome _
      rw [if_pos hrefused]
      rfl
  | false =>
    have hkept := @shellRefuses_kept host _ (keepsOpen host command) _ haccepts
      fun h => (Bool.and_eq_true _ _ ▸ h).1
    rw [hkept]
    simp only [Bool.false_eq_true, if_false, Option.map_some, Option.some.injEq]
    rw [← removal_preserves_iff (nodup_shellLinks _)]
    unfold RemovalPreserves withoutRemoved
    have hhead := headSeq_map (fun k => (keptPlaces host command).getD k 0)
      (shellLinks (keptParts host (splitShellSubcommandsWithJoins command)))
    rw [← shellLinks_kept haccepts, ← hhead]
    refine forall_congr' fun outcome => forall_congr' fun _ => ?_
    have hrun := runChain_map (fun k => (keptPlaces host command).getD k 0) outcome .start
      (headSeq (shellLinks (keptParts host (splitShellSubcommandsWithJoins command))))
    rw [hrun]
    exact eq_comm

/-- A host where the working directory is `/w`. -/
def workHost : ShellHost where
  cwd := units "/w"
  resolve target := if target = units "." then units "/w" else target
  realpath := some
  lower := id

/-- `cd . || ls` runs nothing; `ls` is handed on, and runs. -/
theorem or_after_cd_runs : ¬PreservesMeaning workHost (units "cd . || ls") := by
  intro h
  have hzero := h (fun _ => 0) fun _ _ => rfl
  revert hzero
  decide +kernel

end PosseClient
