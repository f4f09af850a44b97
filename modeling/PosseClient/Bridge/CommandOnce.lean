/-
# A bridge command has one effect

The runs of `CommandResultStore.js`, with the statements of any number of calls in any order and with
calls that never go on.

* `stableJson_eq_iff`: two arguments have one canonical text if and only if they are the same but for
  the order of keys (and `null` counts as `{}`).
* `CommandInv`: the row of an id is what its claimant has inserted, completed as `completion` says.
* **One claim** of an id is claimed, the others are answered by the row of the claimant.
-/
import PosseClient.Bridge.CommandResults
import PosseClient.Lib.KeyedMap
import PosseClient.Lib.Runs

namespace PosseClient

open Json Table

/-! ## 1. Canonical texts -/

section Stable

theorem stableItems_eq_map (items : List Value) : stableItems items = items.map stableValue := by
  induction items with
  | nil => rfl
  | cons v rest ih => rw [stableItems, ih, List.map_cons]

theorem stableMembers_eq_map (members : List (Utf16 × Value)) :
    stableMembers members = members.map fun m => (m.1, stableValue m.2) := by
  induction members with
  | nil => rfl
  | cons m rest ih => rw [stableMembers, ih, List.map_cons]

/-- Sorting by distinct keys forgets the order. -/
theorem sortByKey_eq_of_perm {members members' : List (Utf16 × Value)}
    (hperm : members.Perm members') (hkeys : (members.map Prod.fst).Nodup) :
    sortByKey members = sortByKey members' := by
  have hsorted : ∀ l : List (Utf16 × Value), (sortByKey l).Pairwise fun m m' => m.1 ≤ m'.1 := by
    intro l
    have hpair : (sortByKey l).Pairwise fun m m' => decide (m.1 ≤ m'.1) = true := by
      refine List.pairwise_mergeSort (fun a b c hab hbc => ?_) (fun a b => ?_) l
      · exact decide_eq_true (le_trans (of_decide_eq_true hab) (of_decide_eq_true hbc))
      · simpa using le_total a.1 b.1
    exact hpair.imp fun h => of_decide_eq_true h
  have hperm' : (sortByKey members).Perm (sortByKey members') :=
    (List.mergeSort_perm _ _).trans (hperm.trans (List.mergeSort_perm _ _).symm)
  refine List.Perm.eq_of_pairwise (fun m m' hm hm' hle hge => ?_) (hsorted _) (hsorted _) hperm'
  have hmem : m ∈ members := (List.mergeSort_perm _ _).mem_iff.mp hm
  have hmem' : m' ∈ members := hperm.mem_iff.mpr ((List.mergeSort_perm _ _).mem_iff.mp hm')
  exact List.inj_on_of_nodup_map hkeys hmem hmem' (le_antisymm hle hge)

theorem stableValue_object_perm (members : List (Utf16 × Value)) :
    (fromEntries (sortByKey (stableMembers members))).Perm
      (members.map fun m => (m.1, stableValue m.2)) := by
  rw [stableMembers_eq_map]
  exact (fromEntries_perm _).trans (List.mergeSort_perm _ _)

/-- **The canonical value forgets the order of keys, and nothing else.** -/
theorem stableValue_eq_iff {v w : Value} (hv : WellFormed v) (hw : WellFormed w) :
    stableValue v = stableValue w ↔ Same v w := by
  constructor
  · intro heq
    induction hv generalizing w with
    | null => cases hw <;> first | exact .null | cases heq
    | bool b =>
      cases hw with
      | bool b' =>
        cases heq
        exact .bool b
      | _ => cases heq
    | number n =>
      cases hw with
      | number n' =>
        cases heq
        exact .number n
      | _ => cases heq
    | string s =>
      cases hw with
      | string s' =>
        cases heq
        exact .string s
      | _ => cases heq
    | array items hitems ih =>
      cases hw with
      | array items' hitems' =>
        have hmap : items.map stableValue = items'.map stableValue := by
          rw [← stableItems_eq_map, ← stableItems_eq_map]
          exact Value.array.inj heq
        refine .array items items' ?_ fun i v v' hv hv' => ?_
        · simpa using congrArg List.length hmap
        · have hget := congrArg (·[i]?) hmap
          simp only [List.getElem?_map, hv, hv', Option.map_some] at hget
          exact ih v (List.mem_of_getElem? hv) (hitems' v' (List.mem_of_getElem? hv'))
            (Option.some.inj hget)
      | _ => cases heq
    | object members hkeys _ hmembers ih =>
      cases hw with
      | object members' hkeys' _ hmembers' =>
        have hlist : fromEntries (sortByKey (stableMembers members)) =
            fromEntries (sortByKey (stableMembers members')) := Value.object.inj heq
        have hperm : (members.map fun m => (m.1, stableValue m.2)).Perm
            (members'.map fun m => (m.1, stableValue m.2)) := by
          refine (stableValue_object_perm members).symm.trans ?_
          rw [hlist]
          exact stableValue_object_perm members'
        refine .object members members' ?_ fun k v v' hv hv' => ?_
        · simpa [List.map_map, Function.comp_def] using hperm.map Prod.fst
        · -- the member of this key in the other object
          have hmem : (k, stableValue v) ∈ members'.map fun m => (m.1, stableValue m.2) :=
            hperm.mem_iff.mp (List.mem_map.mpr ⟨(k, v), hv, rfl⟩)
          obtain ⟨m, hm, hpair⟩ := List.mem_map.mp hmem
          have hkey : m.1 = k := congrArg Prod.fst hpair
          have hsame : m = (k, v') := List.inj_on_of_nodup_map hkeys' hm hv' hkey
          subst hsame
          exact ih (k, v) hv (hmembers' (k, v') hv') (congrArg Prod.snd hpair).symm
      | _ => cases heq
  · intro hsame
    induction hsame with
    | null => rfl
    | bool b => rfl
    | number n => rfl
    | string s => rfl
    | array items items' hlength _ ih =>
      cases hv with
      | array _ hitems =>
        cases hw with
        | array _ hitems' =>
          rw [stableValue, stableValue, stableItems_eq_map, stableItems_eq_map]
          refine congrArg Value.array (List.ext_getElem? fun i => ?_)
          rw [List.getElem?_map, List.getElem?_map]
          by_cases hi : i < items.length
          · have hget := List.getElem?_eq_getElem hi
            have hget' := List.getElem?_eq_getElem (hlength ▸ hi)
            rw [hget, hget', Option.map_some, Option.map_some]
            exact congrArg some (ih i _ _ hget hget' (hitems _ (List.mem_of_getElem? hget))
              (hitems' _ (List.mem_of_getElem? hget')))
          · rw [List.getElem?_eq_none (not_lt.mp hi),
              List.getElem?_eq_none (hlength ▸ not_lt.mp hi)]
    | object members members' hkeys _ ih =>
      cases hv with
      | object _ hnodup _ hmembers =>
        cases hw with
        | object _ hnodup' _ hmembers' =>
          rw [stableValue, stableValue]
          refine congrArg (fun l => Value.object (fromEntries l)) (sortByKey_eq_of_perm ?_ ?_)
          · rw [stableMembers_eq_map, stableMembers_eq_map]
            have hfst : ∀ l : List (Utf16 × Value),
                (l.map fun m => (m.1, stableValue m.2)).map Prod.fst = l.map Prod.fst := by
              intro l
              rw [List.map_map]
              rfl
            refine (List.perm_ext_iff_of_nodup ?_ ?_).mpr fun m => ⟨fun hm => ?_, fun hm => ?_⟩
            · exact List.Nodup.of_map Prod.fst (by rw [hfst]; exact hnodup)
            · exact List.Nodup.of_map Prod.fst (by rw [hfst]; exact hnodup')
            · obtain ⟨⟨k, v⟩, hmem, rfl⟩ := List.mem_map.mp hm
              have hkey := hkeys.mem_iff.mp (List.mem_map_of_mem hmem)
              obtain ⟨⟨k', v'⟩, hmem', rfl⟩ := List.mem_map.mp hkey
              have heq := ih k' v v' hmem hmem' (hmembers _ hmem) (hmembers' _ hmem')
              refine List.mem_map.mpr ⟨(k', v'), hmem', ?_⟩
              rw [← heq]
            · obtain ⟨⟨k, v'⟩, hmem', rfl⟩ := List.mem_map.mp hm
              have hkey := hkeys.mem_iff.mpr (List.mem_map_of_mem hmem')
              obtain ⟨⟨k', v⟩, hmem, rfl⟩ := List.mem_map.mp hkey
              have heq := ih k' v v' hmem hmem' (hmembers _ hmem) (hmembers' _ hmem')
              refine List.mem_map.mpr ⟨(k', v), hmem, ?_⟩
              rw [heq]
          · rw [stableMembers_eq_map, List.map_map]
            exact hnodup

theorem wellFormed_orEmpty {v : Value} (h : WellFormed v) : WellFormed (orEmpty v) := by
  cases h with
  | null => exact .object [] List.nodup_nil (by simp [fromEntries]) fun _ hm => by cases hm
  | bool b => exact .bool b
  | number n => exact .number n
  | string s => exact .string s
  | array items hitems => exact .array items hitems
  | object members hkeys hlayout hmembers => exact .object members hkeys hlayout hmembers

/-- **Arguments have one canonical text** if and only if they are the same. -/
theorem stableJson_eq_iff (args args' : JsonValue) :
    stableJson args.value = stableJson args'.value ↔
      Same (orEmpty args.value) (orEmpty args'.value) := by
  rw [← stableValue_eq_iff (wellFormed_orEmpty args.wellFormed) (wellFormed_orEmpty args'.wellFormed)]
  exact stringify_injective.eq_iff

end Stable

/-! ## 2. What holds of the table and of the calls -/

/-- The call that has inserted the row of an id is a claim of this id, and its row is there. -/
structure RowOf (w : CommandWorld) (id : String) (c : ℕ) (name : String) (args : JsonValue)
    (row : CommandRow) : Prop where
  found : w.readRow id = some row
  call : ∃ call, w.calls c = some call ∧ call.request = .claim id name args ∧
    call.phase ≠ .started
  commandName : row.commandName = name
  argsJson : row.argsJson = stableJson args.value
  completion : (w.completion id = none ∧ row.completed = false) ∨
    ∃ ack, w.completion id = some ack ∧ row.completed = true ∧
      row.ackJson = some (stringify ack.value)

/-- What an answered claim has been told, if `first` has inserted the row. -/
def AnsweredAs (c first : ℕ) (same : Prop) (completion : Option JsonValue) :
    CommandAnswer → Prop
  | .claimed => c = first
  | .conflict => c ≠ first ∧ ¬ same
  | .pending => c ≠ first ∧ same
  | .completed ack => c ≠ first ∧ same ∧ ∃ value, completion = some value ∧ value.value = ack
  | .threw _ => c ≠ first ∧ same ∧ ∃ value, completion = some value ∧ isAckObject value.value = false
  | .ack _ => False

/-- What holds of a call. -/
def CallOk (w : CommandWorld) (c : ℕ) (call : CommandCall) : Prop :=
  match call.request, call.phase with
  | .claim id _ _, .started => w.claimant id ≠ some c
  | .claim id _ _, .wrote inserted => ∃ first, w.claimant id = some first ∧
      (inserted = true ↔ c = first)
  | .claim id name args, .answered answer => ∃ first firstName firstArgs row,
      w.claimant id = some first ∧ RowOf w id first firstName firstArgs row ∧
      AnsweredAs c first (name = firstName ∧ Same (orEmpty args.value) (orEmpty firstArgs.value))
        (w.completion id) answer
  | .complete _ _, _ => ∀ id, w.claimant id ≠ some c

structure CommandInv (w : CommandWorld) : Prop where
  ids : (w.rows.map (·.commandId)).Nodup
  claimants : ∀ id c, w.claimant id = some c → ∃ name args row, RowOf w id c name args row
  rows : ∀ row ∈ w.rows, (w.claimant row.commandId).isSome = true
  unclaimed : ∀ id, w.claimant id = none → w.completion id = none
  calls : ∀ c call, w.calls c = some call → CallOk w c call

section Inv

variable {w w' : CommandWorld} {c : ℕ} {call : CommandCall}

/-- What a step of the call `c` leaves as it is. -/
structure CommandLater (w w' : CommandWorld) (c : ℕ) : Prop where
  claimant : ∀ id first, w.claimant id = some first → w'.claimant id = some first
  completion : ∀ id ack, w.completion id = some ack → w'.completion id = some ack
  rowOf : ∀ id first name args row, w.claimant id = some first → RowOf w id first name args row →
    ∃ row', RowOf w' id first name args row'
  fresh : ∀ id c', c' ≠ c → w'.claimant id = some c' → w.claimant id = some c'
  others : ∀ c', c' ≠ c → w'.calls c' = w.calls c'

theorem AnsweredAs.later {first : ℕ} {same : Prop} {completion completion' : Option JsonValue}
    {answer : CommandAnswer} (h : AnsweredAs c first same completion answer)
    (hkept : ∀ ack, completion = some ack → completion' = some ack) :
    AnsweredAs c first same completion' answer := by
  cases answer with
  | claimed => exact h
  | conflict => exact h
  | pending => exact h
  | completed ack =>
    obtain ⟨hne, hsame, value, hvalue, hack⟩ := h
    exact ⟨hne, hsame, value, hkept value hvalue, hack⟩
  | ack ack => exact h
  | threw message =>
    obtain ⟨hne, hsame, value, hvalue, hack⟩ := h
    exact ⟨hne, hsame, value, hkept value hvalue, hack⟩

theorem CallOk.later (h : CallOk w c call) {c₀ : ℕ} (hlater : CommandLater w w' c₀) (hne : c ≠ c₀) :
    CallOk w' c call := by
  have hfresh : ∀ id, w.claimant id ≠ some c → w'.claimant id ≠ some c :=
    fun id hnot hnow => hnot (hlater.fresh id c hne hnow)
  unfold CallOk at h ⊢
  cases hrequest : call.request with
  | claim id name args =>
    rw [hrequest] at h
    cases hphase : call.phase with
    | started =>
      rw [hphase] at h
      exact hfresh id h
    | wrote inserted =>
      rw [hphase] at h
      obtain ⟨first, hfirst, hiff⟩ := h
      exact ⟨first, hlater.claimant id first hfirst, hiff⟩
    | answered answer =>
      rw [hphase] at h
      obtain ⟨first, firstName, firstArgs, row, hfirst, hrow, hanswer⟩ := h
      obtain ⟨row', hrow'⟩ := hlater.rowOf id first firstName firstArgs row hfirst hrow
      exact ⟨first, firstName, firstArgs, row', hlater.claimant id first hfirst, hrow',
        hanswer.later (hlater.completion id)⟩
  | complete id ack =>
    rw [hrequest] at h
    exact fun id' => hfresh id' (h id')

/-- The invariant after a step, from what the step leaves and what it makes. -/
theorem CommandInv.of_later (h : CommandInv w) (hlater : CommandLater w w' c)
    (hids : (w'.rows.map (·.commandId)).Nodup)
    (hclaimants : ∀ id first, w'.claimant id = some first → w.claimant id = some first ∨
      ∃ name args row, RowOf w' id first name args row)
    (hrows : ∀ row ∈ w'.rows, (w'.claimant row.commandId).isSome = true)
    (hunclaimed : ∀ id, w'.claimant id = none → w'.completion id = none)
    (hcall : ∀ call, w'.calls c = some call → CallOk w' c call) : CommandInv w' := by
  refine ⟨hids, fun id first hfirst => ?_, hrows, hunclaimed, fun c' call' hcall' => ?_⟩
  · rcases hclaimants id first hfirst with hold | hnew
    · obtain ⟨name, args, row, hrow⟩ := h.claimants id first hold
      obtain ⟨row', hrow'⟩ := hlater.rowOf id first name args row hold hrow
      exact ⟨name, args, row', hrow'⟩
    · exact hnew
  · by_cases hc : c' = c
    · subst hc
      exact hcall call' hcall'
    · rw [hlater.others c' hc] at hcall'
      exact (h.calls c' call' hcall').later hlater hc

/-- A row that stays, with its call not further back. -/
theorem RowOf.of_calls {id : String} {first : ℕ} {name : String} {args : JsonValue}
    {row : CommandRow} (h : RowOf w id first name args row) (hrows : w'.rows = w.rows)
    (hcompletion : w'.completion = w.completion)
    (hothers : ∀ c', c' ≠ c → w'.calls c' = w.calls c')
    (hcalls : ∀ call, w.calls c = some call → ∃ call', w'.calls c = some call' ∧
      call'.request = call.request ∧ (call.phase ≠ .started → call'.phase ≠ .started)) :
    RowOf w' id first name args row := by
  refine ⟨?_, ?_, h.commandName, h.argsJson, ?_⟩
  · rw [CommandWorld.readRow, hrows]
    exact h.found
  · obtain ⟨old, hold, hrequest, hphase⟩ := h.call
    by_cases hc : first = c
    · subst hc
      obtain ⟨new, hnew, hsame, hon⟩ := hcalls old hold
      exact ⟨new, hnew, hsame.trans hrequest, hon hphase⟩
    · exact ⟨old, (hothers first hc).trans hold, hrequest, hphase⟩
  · rw [hcompletion]
    exact h.completion

/-- A step that changes nothing but how far its call is. -/
theorem CommandInv.setPhase (h : CommandInv w) (hcall : w.calls c = some call) {phase : CommandPhase}
    (hon : phase ≠ .started) (hok : CallOk (w.setPhase c call phase) c { call with phase := phase }) :
    CommandInv (w.setPhase c call phase) := by
  have hself : (w.setPhase c call phase).calls c = some { call with phase := phase } :=
    Function.update_self _ _ _
  have hothers : ∀ c', c' ≠ c → (w.setPhase c call phase).calls c' = w.calls c' :=
    fun c' hne => Function.update_of_ne hne _ _
  have hlater : CommandLater w (w.setPhase c call phase) c := by
    refine ⟨fun _ _ hfirst => hfirst, fun _ _ hack => hack, fun id first name args row _ hrow => ?_,
      fun _ _ _ hnow => hnow, hothers⟩
    refine ⟨row, hrow.of_calls rfl rfl hothers fun old hold => ?_⟩
    obtain rfl := Option.some.inj (hcall.symm.trans hold)
    exact ⟨_, hself, rfl, fun _ => hon⟩
  refine h.of_later hlater h.ids (fun _ _ hfirst => Or.inl hfirst) h.rows h.unclaimed
    fun call' hcall' => ?_
  rw [hself] at hcall'
  obtain rfl := Option.some.inj hcall'
  exact hok

theorem CommandInv.begin (h : CommandInv w) (c : ℕ) (request : CommandRequest) :
    CommandInv (w.begin c request) := by
  unfold CommandWorld.begin
  cases hcalls : w.calls c with
  | some call => exact h
  | none =>
    have hnot : ∀ id, w.claimant id ≠ some c := by
      intro id hfirst
      obtain ⟨name, args, row, hrow⟩ := h.claimants id c hfirst
      obtain ⟨call, hcall, -⟩ := hrow.call
      rw [hcalls] at hcall
      cases hcall
    have hothers : ∀ c', c' ≠ c →
        Function.update w.calls c (some { request := request }) c' = w.calls c' :=
      fun c' hne => Function.update_of_ne hne _ _
    simp only [Option.isSome_none, Bool.false_eq_true, if_false]
    refine h.of_later (c := c) ⟨fun _ _ hfirst => hfirst, fun _ _ hack => hack,
      fun id first name args row _ hrow => ⟨row, ?_⟩, fun _ _ _ hnow => hnow, hothers⟩ h.ids
      (fun _ _ hfirst => Or.inl hfirst) h.rows h.unclaimed fun call hcall => ?_
    · refine hrow.of_calls (c := c) rfl rfl hothers fun old hold => ?_
      rw [hcalls] at hold
      cases hold
    · have hself : Function.update w.calls c (some { request := request }) c =
          some { request := request } := Function.update_self _ _ _
      obtain rfl := Option.some.inj (hself.symm.trans hcall)
      unfold CallOk
      cases request with
      | claim id name args => exact hnot id
      | complete id ack => exact hnot

/-- The row of an id is the row of its claimant. -/
theorem CommandInv.rowOf_of_readRow (h : CommandInv w) {id : String} {row : CommandRow}
    (hread : w.readRow id = some row) :
    ∃ first name args, w.claimant id = some first ∧ RowOf w id first name args row := by
  have hid : row.commandId = id := lookup_key hread
  have hsome : (w.claimant id).isSome = true := hid ▸ h.rows row (lookup_mem hread)
  obtain ⟨first, hfirst⟩ := Option.isSome_iff_exists.mp hsome
  obtain ⟨name, args, row', hrow⟩ := h.claimants id first hfirst
  obtain rfl := Option.some.inj (hrow.found.symm.trans hread)
  exact ⟨first, name, args, hfirst, hrow⟩

/-- A pending row has no completion. -/
theorem CommandInv.completion_of_pending (h : CommandInv w) {row : CommandRow}
    (hmem : row ∈ w.rows) (hpending : row.completed = false) :
    w.completion row.commandId = none := by
  obtain ⟨_, _, _, -, hrow⟩ := h.rowOf_of_readRow (lookup_of_mem h.ids hmem)
  rcases hrow.completion with ⟨hnone, -⟩ | ⟨_, -, hcompleted, -⟩
  · exact hnone
  · rw [hpending] at hcompleted
    cases hcompleted

theorem CommandInv.insertClaim (h : CommandInv w) (hcall : w.calls c = some call) {id name : String}
    {args : JsonValue} (hrequest : call.request = .claim id name args)
    (hphase : call.phase = .started) : CommandInv (w.insertClaim c call id name args) := by
  have hok : w.claimant id ≠ some c := by
    have hok := h.calls c call hcall
    unfold CallOk at hok
    rw [hrequest, hphase] at hok
    exact hok
  unfold CommandWorld.insertClaim
  cases hread : w.readRow id with
  | some row =>
    -- a row is there: the call has inserted nothing
    obtain ⟨first, firstName, firstArgs, hfirst, hrow⟩ := h.rowOf_of_readRow hread
    simp only [Option.isSome_some, if_true]
    refine h.setPhase hcall (by simp) ?_
    unfold CallOk
    rw [hrequest]
    refine ⟨first, hfirst, ⟨fun hfalse => absurd hfalse Bool.false_ne_true, fun heq => ?_⟩⟩
    exact absurd (heq ▸ hfirst) hok
  | none =>
    have hnone : w.claimant id = none := by
      cases hfirst : w.claimant id with
      | none => rfl
      | some first =>
        obtain ⟨_, _, row, hrow⟩ := h.claimants id first hfirst
        rw [hrow.found] at hread
        cases hread
    have hne : ∀ id' first, w.claimant id' = some first → id' ≠ id := by
      intro id' first hfirst heq
      rw [heq, hnone] at hfirst
      cases hfirst
    simp only [Option.isSome_none, Bool.false_eq_true, if_false]
    generalize hnew : CommandRow.mk id name (stableJson args.value) false none none = row
    have hid : row.commandId = id := hnew ▸ rfl
    have hread' : ∀ id', lookup (·.commandId) id' (w.rows ++ [row]) =
        if id' = id then some row else w.readRow id' := by
      intro id'
      rw [KeyedMap.lookup_concat, hid]
      by_cases heq : id' = id
      · subst heq
        unfold CommandWorld.readRow at hread
        rw [hread]
        simp
      · unfold CommandWorld.readRow
        cases lookup (·.commandId) id' w.rows with
        | none => simp [heq, Ne.symm heq]
        | some _ => simp [heq]
    have hself : (w.setPhase c call (.wrote true)).calls c =
        some { call with phase := .wrote true } := Function.update_self _ _ _
    have hothers : ∀ c', c' ≠ c → (w.setPhase c call (.wrote true)).calls c' = w.calls c' :=
      fun c' hne => Function.update_of_ne hne _ _
    have hclaimant : ∀ id', id' ≠ id →
        Function.update w.claimant id (some c) id' = w.claimant id' :=
      fun id' hne' => Function.update_of_ne hne' _ _
    have hclaimed : Function.update w.claimant id (some c) id = some c := Function.update_self _ _ _
    refine h.of_later (c := c)
      ⟨fun id' first hfirst => (hclaimant id' (hne id' first hfirst)).trans hfirst,
        fun _ _ hack => hack, ?_, ?_, hothers⟩ ?_ ?_ ?_ ?_ ?_
    · -- the rows of other ids
      intro id' first name' args' row' hfirst hrow
      have hdiff := hne id' first hfirst
      refine ⟨row', ?_, ?_, hrow.commandName, hrow.argsJson, hrow.completion⟩
      · refine (hread' id').trans ?_
        rw [if_neg hdiff]
        exact hrow.found
      · obtain ⟨old, hold, hclaim, hon⟩ := hrow.call
        by_cases hc : first = c
        · subst hc
          obtain rfl := Option.some.inj (hcall.symm.trans hold)
          exact ⟨_, hself, hclaim, by simp⟩
        · exact ⟨old, (hothers first hc).trans hold, hclaim, hon⟩
    · intro id' c' hc' hnow
      by_cases heq : id' = id
      · subst heq
        exact absurd (Option.some.inj (hclaimed.symm.trans hnow)).symm hc'
      · exact (hclaimant id' heq).symm.trans hnow
    · rw [List.map_append, List.nodup_append]
      refine ⟨h.ids, List.nodup_singleton _, fun id₁ hid₁ id₂ hid₂ heq => ?_⟩
      obtain ⟨row', hrow', rfl⟩ := List.mem_map.mp hid₁
      obtain rfl := List.mem_singleton.mp hid₂
      exact lookup_eq_none_iff.mp hread row' hrow' (heq.trans hid)
    · intro id' first hfirst
      by_cases heq : id' = id
      · subst heq
        obtain rfl := Option.some.inj (hclaimed.symm.trans hfirst)
        refine Or.inr ⟨name, args, row, (hread' id').trans (if_pos rfl),
          ⟨_, hself, hrequest, by simp⟩, ?_, ?_, Or.inl ⟨h.unclaimed id' hnone, ?_⟩⟩
        · rw [← hnew]
        · rw [← hnew]
        · rw [← hnew]
      · exact Or.inl ((hclaimant id' heq).symm.trans hfirst)
    · intro row' hrow'
      rcases List.mem_append.mp hrow' with hold | hlast
      · by_cases heq : row'.commandId = id
        · exact absurd heq (lookup_eq_none_iff.mp hread row' hold)
        · exact (congrArg Option.isSome (hclaimant _ heq)).trans (h.rows row' hold)
      · obtain rfl := List.mem_singleton.mp hlast
        rw [hid]
        exact congrArg Option.isSome hclaimed
    · intro id' hnow
      by_cases heq : id' = id
      · subst heq
        cases hclaimed.symm.trans hnow
      · exact h.unclaimed id' ((hclaimant id' heq).symm.trans hnow)
    · intro call' hcall'
      obtain rfl := Option.some.inj (hself.symm.trans hcall')
      unfold CallOk
      rw [hrequest]
      exact ⟨c, hclaimed, by simp⟩

theorem claimAnswer_conflict {row : CommandRow} {inserted : Bool} {name : String} {args : JsonValue}
    (h : row.commandName ≠ name ∨ row.argsJson ≠ stableJson args.value) :
    claimAnswer (some row) inserted name args = .conflict := if_pos h

theorem claimAnswer_claimed {row : CommandRow} {name : String} {args : JsonValue}
    (h : ¬ (row.commandName ≠ name ∨ row.argsJson ≠ stableJson args.value)) :
    claimAnswer (some row) true name args = .claimed := if_neg h

theorem claimAnswer_pending {row : CommandRow} {name : String} {args : JsonValue}
    (h : ¬ (row.commandName ≠ name ∨ row.argsJson ≠ stableJson args.value))
    (hpending : row.completed = false) :
    claimAnswer (some row) false name args = .pending := by
  simp only [claimAnswer, if_neg h, hpending, Bool.false_eq_true, if_false]

theorem claimAnswer_completed {row : CommandRow} {name : String} {args ack : JsonValue}
    (h : ¬ (row.commandName ≠ name ∨ row.argsJson ≠ stableJson args.value))
    (hcompleted : row.completed = true) (hjson : row.ackJson = some (stringify ack.value)) :
    claimAnswer (some row) false name args = if isAckObject ack.value then .completed ack.value
      else .threw "durable command result is corrupt" := by
  have hread : (some (stringify ack.value)).bind (parse fromEntries) = some ack.value :=
    parse_stringify ack.wellFormed.laidOut
  simp only [claimAnswer, if_neg h, hcompleted, Bool.false_eq_true, if_false, if_true, hjson, hread]

/-- **The answer of a claim**, from the row of the first. -/
theorem RowOf.answeredAs {id : String} {first : ℕ} {firstName name : String}
    {firstArgs args : JsonValue} {row : CommandRow} {inserted : Bool}
    (h : RowOf w id first firstName firstArgs row) (hcall : w.calls c = some call)
    (hrequest : call.request = .claim id name args) (hinserted : inserted = true ↔ c = first) :
    AnsweredAs c first (name = firstName ∧ Same (orEmpty args.value) (orEmpty firstArgs.value))
      (w.completion id) (claimAnswer (some row) inserted name args) := by
  have hsame : (row.commandName ≠ name ∨ row.argsJson ≠ stableJson args.value) ↔
      ¬ (name = firstName ∧ Same (orEmpty args.value) (orEmpty firstArgs.value)) := by
    rw [h.commandName, h.argsJson, ← stableJson_eq_iff, not_and_or, ne_comm,
      ne_comm (a := stableJson firstArgs.value)]
  by_cases hc : c = first
  · -- the claim that has inserted the row reads its own request
    have hagrees : ¬ (row.commandName ≠ name ∨ row.argsJson ≠ stableJson args.value) := by
      obtain ⟨own, hown, hownRequest, -⟩ := h.call
      rw [← hc, hcall] at hown
      obtain rfl := Option.some.inj hown
      rw [hrequest] at hownRequest
      cases hownRequest
      rw [h.commandName, h.argsJson]
      simp
    rw [hinserted.mpr hc, claimAnswer_claimed hagrees]
    exact hc
  · have hnot : inserted = false := Bool.eq_false_iff.mpr fun heq => hc (hinserted.mp heq)
    by_cases hdiffers : row.commandName ≠ name ∨ row.argsJson ≠ stableJson args.value
    · rw [claimAnswer_conflict hdiffers]
      exact ⟨hc, hsame.mp hdiffers⟩
    · have hagrees := not_not.mp (mt hsame.mpr hdiffers)
      rw [hnot]
      rcases h.completion with ⟨-, hpending⟩ | ⟨ack, hack, hcompleted, hjson⟩
      · rw [claimAnswer_pending hdiffers hpending]
        exact ⟨hc, hagrees⟩
      · rw [claimAnswer_completed hdiffers hcompleted hjson]
        cases hobject : isAckObject ack.value with
        | true => exact ⟨hc, hagrees, ack, hack, rfl⟩
        | false => exact ⟨hc, hagrees, ack, hack, hobject⟩

theorem CommandInv.answerClaim (h : CommandInv w) (hcall : w.calls c = some call)
    {id name : String} {args : JsonValue} {inserted : Bool}
    (hrequest : call.request = .claim id name args) (hphase : call.phase = .wrote inserted) :
    CommandInv (w.setPhase c call (.answered (claimAnswer (w.readRow id) inserted name args))) := by
  have hok := h.calls c call hcall
  unfold CallOk at hok
  rw [hrequest, hphase] at hok
  obtain ⟨first, hfirst, hinserted⟩ := hok
  obtain ⟨firstName, firstArgs, row, hrow⟩ := h.claimants id first hfirst
  refine h.setPhase hcall (by simp) ?_
  unfold CallOk
  rw [hrequest]
  refine ⟨first, firstName, firstArgs, row, hfirst, ?_, ?_⟩
  · refine hrow.of_calls rfl rfl (fun c' hne => Function.update_of_ne hne _ _) fun old hold => ?_
    obtain rfl := Option.some.inj (hcall.symm.trans hold)
    exact ⟨_, Function.update_self _ _ _, rfl, fun _ => by simp⟩
  · rw [hrow.found]
    exact hrow.answeredAs hcall hrequest hinserted

/-- A call that is no claim has inserted nothing, however far it is. -/
theorem CommandInv.not_claimant (h : CommandInv w) (hcall : w.calls c = some call) {id : String}
    {ack : JsonValue} (hrequest : call.request = .complete id ack) :
    ∀ id', w.claimant id' ≠ some c := by
  have hok := h.calls c call hcall
  unfold CallOk at hok
  rw [hrequest] at hok
  exact hok

theorem CommandInv.completeGoesOn (h : CommandInv w) (hcall : w.calls c = some call) {id : String}
    {ack : JsonValue} (hrequest : call.request = .complete id ack) {phase : CommandPhase}
    (hon : phase ≠ .started) : CommandInv (w.setPhase c call phase) := by
  refine h.setPhase hcall hon ?_
  unfold CallOk
  rw [hrequest]
  exact h.not_claimant hcall hrequest

theorem CommandInv.updateComplete (h : CommandInv w) (hcall : w.calls c = some call) {id : String}
    {ack : JsonValue} (hrequest : call.request = .complete id ack) (nowMs : ℤ) :
    CommandInv (w.updateComplete c call id ack nowMs) := by
  unfold CommandWorld.updateComplete
  set isPending : CommandRow → Bool := fun row => decide (row.commandId = id) && !row.completed
    with hisPending
  set f : CommandRow → CommandRow := fun row =>
    { row with
      completed := true, ackJson := some (stringify ack.value), completedAt := some nowMs } with hf
  have hpendingIff : ∀ row, isPending row = true ↔ row.commandId = id ∧ row.completed = false := by
    intro row
    simp [hisPending]
  by_cases hchanged : 0 < changes isPending w.rows
  · obtain ⟨row, hmem, hrow⟩ := changes_pos_iff.mp hchanged
    obtain ⟨hid, hpending⟩ := (hpendingIff row).mp hrow
    have hread : w.readRow id = some row := hid ▸ lookup_of_mem h.ids hmem
    obtain ⟨first, _, _, hfirst, -⟩ := h.rowOf_of_readRow hread
    have hnone : w.completion id = none := hid ▸ h.completion_of_pending hmem hpending
    have hkeys : ∀ row, isPending row = true → (f row).commandId = row.commandId := fun _ _ => rfl
    have hlookup : ∀ id', lookup (·.commandId) id' (updateWhere isPending f w.rows) =
        (w.readRow id').map fun row => if isPending row then f row else row :=
      fun id' => lookup_updateWhere hkeys
    have hself : (w.setPhase c call (.wrote true)).calls c =
        some { call with phase := .wrote true } := Function.update_self _ _ _
    have hothers : ∀ c', c' ≠ c → (w.setPhase c call (.wrote true)).calls c' = w.calls c' :=
      fun c' hne => Function.update_of_ne hne _ _
    have hcompletion : Function.update w.completion id (some ack) id = some ack :=
      Function.update_self _ _ _
    rw [if_pos hchanged]
    refine h.of_later (c := c) ⟨fun _ _ hclaimant => hclaimant, ?_, ?_, fun _ _ _ hnow => hnow,
      hothers⟩ ?_ (fun _ _ hclaimant => Or.inl hclaimant) ?_ ?_ ?_
    · intro id' ack' hack'
      have hne : id' ≠ id := by
        intro heq
        rw [heq, hnone] at hack'
        cases hack'
      exact (Function.update_of_ne hne _ _).trans hack'
    · intro id' first' name' args' row' hclaimant hrowOf'
      have hcall' : ∃ call', (w.setPhase c call (.wrote true)).calls first' = some call' ∧
          call'.request = .claim id' name' args' ∧ call'.phase ≠ .started := by
        obtain ⟨old, hold, hclaim, hon⟩ := hrowOf'.call
        by_cases hc : first' = c
        · exact absurd (hc ▸ hclaimant) (h.not_claimant hcall hrequest id')
        · exact ⟨old, (hothers first' hc).trans hold, hclaim, hon⟩
      by_cases heq : id' = id
      · -- the row the ack goes to
        subst heq
        obtain rfl := Option.some.inj (hread.symm.trans hrowOf'.found)
        refine ⟨f row, ?_, hcall', hrowOf'.commandName, hrowOf'.argsJson,
          Or.inr ⟨ack, hcompletion, rfl, rfl⟩⟩
        refine (hlookup id').trans ?_
        rw [hread, Option.map_some, if_pos hrow]
      · have hnot : isPending row' = false := by
          refine Bool.eq_false_iff.mpr fun hp => heq ?_
          exact (lookup_key hrowOf'.found).symm.trans ((hpendingIff row').mp hp).1
        refine ⟨row', ?_, hcall', hrowOf'.commandName, hrowOf'.argsJson, ?_⟩
        · refine (hlookup id').trans ?_
          rw [hrowOf'.found, Option.map_some, hnot]
          rfl
        · have hkept : Function.update w.completion id (some ack) id' = w.completion id' :=
            Function.update_of_ne heq _ _
          rcases hrowOf'.completion with ⟨hnone', hpending'⟩ | ⟨ack', hack', hrest⟩
          · exact Or.inl ⟨hkept.trans hnone', hpending'⟩
          · exact Or.inr ⟨ack', hkept.trans hack', hrest⟩
    · exact (map_key_updateWhere hkeys).symm ▸ h.ids
    · intro row' hrow'
      rcases mem_updateWhere_cases hrow' with ⟨hmem', -⟩ | ⟨old, hold, -, rfl⟩
      · exact h.rows row' hmem'
      · exact h.rows old hold
    · intro id' hclaimant
      have hne : id' ≠ id := by
        intro heq
        rw [heq] at hclaimant
        exact absurd (hfirst.symm.trans hclaimant) (by simp)
      exact (Function.update_of_ne hne _ _).trans (h.unclaimed id' hclaimant)
    · intro call' hcall'
      obtain rfl := Option.some.inj (hself.symm.trans hcall')
      unfold CallOk
      rw [hrequest]
      exact h.not_claimant hcall hrequest
  · rw [if_neg hchanged]
    exact h.completeGoesOn hcall hrequest (by simp)

/-! ## 3. Every run -/

/-- No row is older than the retention window when a completion deletes rows. -/
def NothingExpired (w : CommandWorld) : CommandOp → Prop
  | .step _ nowMs => ∀ row ∈ w.rows, row.expired nowMs = false
  | _ => True

instance (w : CommandWorld) : ∀ op, Decidable (NothingExpired w op)
  | .claim .. => inferInstanceAs (Decidable True)
  | .complete .. => inferInstanceAs (Decidable True)
  | .step _ nowMs => inferInstanceAs (Decidable (∀ row ∈ w.rows, row.expired nowMs = false))

theorem deleteExpired_eq_self {nowMs : ℤ} (hfresh : ∀ row ∈ w.rows, row.expired nowMs = false) :
    w.deleteExpired nowMs = w := by
  have hrows : deleteWhere (fun row : CommandRow => row.expired nowMs) w.rows = w.rows := by
    refine List.filter_eq_self.mpr fun row hrow => ?_
    simp [hfresh row hrow]
  unfold CommandWorld.deleteExpired
  rw [hrows]

theorem CommandInv.stepCall (h : CommandInv w) (hcall : w.calls c = some call) {nowMs : ℤ}
    (hfresh : ∀ row ∈ w.rows, row.expired nowMs = false) :
    CommandInv (w.stepCall c call nowMs) := by
  unfold CommandWorld.stepCall
  cases hrequest : call.request with
  | claim id name args =>
    cases hphase : call.phase with
    | started => exact h.insertClaim hcall hrequest hphase
    | wrote inserted => exact h.answerClaim hcall hrequest hphase
    | answered answer => exact h
  | complete id ack =>
    cases hphase : call.phase with
    | started => exact h.updateComplete hcall hrequest nowMs
    | wrote changed =>
      cases changed with
      | true =>
        rw [deleteExpired_eq_self hfresh]
        exact h.completeGoesOn hcall hrequest (by simp)
      | false => exact h.completeGoesOn hcall hrequest (by simp)
    | answered answer => exact h

theorem CommandInv.step (h : CommandInv w) {op : CommandOp} (hop : NothingExpired w op) :
    CommandInv (commandStep w op) := by
  cases op with
  | claim c commandId commandName args => exact h.begin c _
  | complete c commandId ack => exact h.begin c _
  | step c nowMs =>
    cases hcall : w.calls c with
    | none =>
      simp only [commandStep, hcall]
      exact h
    | some call =>
      simp only [commandStep, hcall]
      exact h.stepCall hcall hop

theorem commandInv_empty : CommandInv {} where
  ids := List.nodup_nil
  claimants := fun _ _ hclaimant => by cases hclaimant
  rows := fun _ hrow => by cases hrow
  unclaimed := fun _ _ => rfl
  calls := fun _ _ hcall => by cases hcall

theorem commandInv_run {ops : List CommandOp}
    (hops : Runs.Meets commandStep NothingExpired {} ops) :
    CommandInv (Runs.run commandStep {} ops) :=
  Runs.run_invariant (fun _ _ h hop => h.step hop) commandInv_empty hops

/-- What no step undoes: the request of a row, a completed row, and the ack of an id. -/
structure CommandKept (w w' : CommandWorld) : Prop where
  rows : ∀ row ∈ w.rows, ∃ row' ∈ w'.rows, row'.commandId = row.commandId ∧
    row'.commandName = row.commandName ∧ row'.argsJson = row.argsJson ∧
    (row.completed = true → row' = row)
  completion : ∀ id ack, w.completion id = some ack → w'.completion id = some ack

theorem CommandKept.refl (w : CommandWorld) : CommandKept w w :=
  ⟨fun row hrow => ⟨row, hrow, rfl, rfl, rfl, fun _ => rfl⟩, fun _ _ hack => hack⟩

theorem CommandKept.trans {w'' : CommandWorld} (h : CommandKept w w') (h' : CommandKept w' w'') :
    CommandKept w w'' := by
  refine ⟨fun row hrow => ?_, fun id ack hack => h'.completion id ack (h.completion id ack hack)⟩
  obtain ⟨row', hrow', hid, hname, hargs, hdone⟩ := h.rows row hrow
  obtain ⟨row'', hrow'', hid', hname', hargs', hdone'⟩ := h'.rows row' hrow'
  refine ⟨row'', hrow'', hid'.trans hid, hname'.trans hname, hargs'.trans hargs, fun hcompleted => ?_⟩
  have hsame := hdone hcompleted
  exact (hdone' (hsame ▸ hcompleted)).trans hsame

theorem CommandKept.of_append (rows : List CommandRow) (hrows : w'.rows = w.rows ++ rows)
    (hcompletion : w'.completion = w.completion) : CommandKept w w' := by
  refine ⟨fun row hrow => ⟨row, ?_, rfl, rfl, rfl, fun _ => rfl⟩, fun id ack hack => ?_⟩
  · rw [hrows]
    exact List.mem_append_left _ hrow
  · rw [hcompletion]
    exact hack

theorem CommandKept.of_rows_eq (hrows : w'.rows = w.rows)
    (hcompletion : w'.completion = w.completion) : CommandKept w w' :=
  .of_append [] (by rw [hrows, List.append_nil]) hcompletion

theorem insertClaim_kept (id name : String) (args : JsonValue) :
    CommandKept w (w.insertClaim c call id name args) := by
  unfold CommandWorld.insertClaim
  split
  · exact .of_rows_eq rfl rfl
  · exact .of_append _ rfl rfl

theorem CommandInv.updateComplete_kept (h : CommandInv w) (id : String) (ack : JsonValue)
    (nowMs : ℤ) : CommandKept w (w.updateComplete c call id ack nowMs) := by
  unfold CommandWorld.updateComplete
  set isPending : CommandRow → Bool := fun row => decide (row.commandId = id) && !row.completed
    with hisPending
  by_cases hchanged : 0 < changes isPending w.rows
  · rw [if_pos hchanged]
    refine ⟨fun row hrow => ?_, fun id' ack' hack' => ?_⟩
    · cases hp : isPending row with
      | true =>
        refine ⟨_, mem_updateWhere_of hrow hp, rfl, rfl, rfl, fun hcompleted => ?_⟩
        simp [hisPending, hcompleted] at hp
      | false => exact ⟨row, mem_updateWhere_of_not hrow hp, rfl, rfl, rfl, fun _ => rfl⟩
    · obtain ⟨row, hmem, hrow⟩ := changes_pos_iff.mp hchanged
      simp only [hisPending, Bool.and_eq_true, decide_eq_true_eq, Bool.not_eq_true'] at hrow
      have hne : id' ≠ id := by
        intro heq
        rw [heq, ← hrow.1, h.completion_of_pending hmem hrow.2] at hack'
        cases hack'
      exact (Function.update_of_ne hne _ _).trans hack'
  · rw [if_neg hchanged]
    exact .of_rows_eq rfl rfl

theorem CommandInv.step_kept (h : CommandInv w) {op : CommandOp} (hop : NothingExpired w op) :
    CommandKept w (commandStep w op) := by
  have hbegin : ∀ c request, CommandKept w (w.begin c request) := by
    intro c request
    unfold CommandWorld.begin
    split
    · exact .refl w
    · exact .of_rows_eq rfl rfl
  cases op with
  | claim c commandId commandName args => exact hbegin c _
  | complete c commandId ack => exact hbegin c _
  | step c nowMs =>
    cases hcall : w.calls c with
    | none =>
      simp only [commandStep, hcall]
      exact .refl w
    | some call =>
      simp only [commandStep, hcall, CommandWorld.stepCall]
      cases hrequest : call.request with
      | claim id name args =>
        cases hphase : call.phase with
        | started => exact insertClaim_kept id name args
        | wrote inserted => exact .of_rows_eq rfl rfl
        | answered answer => exact .refl w
      | complete id ack =>
        cases hphase : call.phase with
        | started => exact h.updateComplete_kept id ack nowMs
        | wrote changed =>
          cases changed with
          | true =>
            rw [deleteExpired_eq_self hop]
            exact .of_rows_eq rfl rfl
          | false => exact .of_rows_eq rfl rfl
        | answered answer => exact .refl w

theorem commandKept_run {before after : List CommandOp}
    (hops : Runs.Meets commandStep NothingExpired {} (before ++ after)) :
    CommandKept (Runs.run commandStep {} before) (Runs.run commandStep {} (before ++ after)) := by
  obtain ⟨hbefore, hafter⟩ := Runs.meets_append.mp hops
  rw [Runs.run_append]
  exact Runs.run_rel CommandKept.refl (fun _ _ _ h h' => h.trans h')
    (fun _ _ h hop => h.step hop) (fun _ _ h hop => h.step_kept hop) (commandInv_run hbefore) hafter

/-- The claim whose statement has inserted the row of an id, and its request. -/
structure IsFirst (w : CommandWorld) (id : String) (first : ℕ) (name : String) (args : JsonValue) :
    Prop where
  claimant : w.claimant id = some first
  request : ∃ phase, w.calls first = some ⟨.claim id name args, phase⟩

theorem RowOf.isFirst {id : String} {first : ℕ} {name : String} {args : JsonValue}
    {row : CommandRow} (h : RowOf w id first name args row) (hfirst : w.claimant id = some first) :
    IsFirst w id first name args := by
  obtain ⟨call, hcall, hrequest, -⟩ := h.call
  exact ⟨hfirst, call.phase, hrequest ▸ hcall⟩

/-- What an answered claim has been told. -/
theorem CommandInv.answered (h : CommandInv w) {id name : String} {args : JsonValue}
    {answer : CommandAnswer} (hcall : w.calls c = some ⟨.claim id name args, .answered answer⟩) :
    ∃ first firstName firstArgs, IsFirst w id first firstName firstArgs ∧
      AnsweredAs c first (name = firstName ∧ Same (orEmpty args.value) (orEmpty firstArgs.value))
        (w.completion id) answer := by
  obtain ⟨first, firstName, firstArgs, row, hfirst, hrow, hanswer⟩ := h.calls c _ hcall
  exact ⟨first, firstName, firstArgs, hrow.isFirst hfirst, hanswer⟩

theorem answeredAs_claimed_iff {first : ℕ} {same : Prop} {completion : Option JsonValue}
    {answer : CommandAnswer} (h : AnsweredAs c first same completion answer) :
    answer = .claimed ↔ c = first := by
  cases answer with
  | claimed => exact ⟨fun _ => h, fun _ => rfl⟩
  | ack ack => exact h.elim
  | _ => exact ⟨fun heq => (by cases heq), fun heq => absurd heq h.1⟩

theorem answeredAs_conflict_iff {first : ℕ} {same : Prop} {completion : Option JsonValue}
    {answer : CommandAnswer} (h : AnsweredAs c first same completion answer) :
    answer = .conflict ↔ c ≠ first ∧ ¬ same := by
  cases answer with
  | conflict => exact ⟨fun _ => h, fun _ => rfl⟩
  | claimed => exact ⟨fun heq => (by cases heq), fun hne => absurd h hne.1⟩
  | ack ack => exact h.elim
  | pending => exact ⟨fun heq => (by cases heq), fun hne => absurd h.2 hne.2⟩
  | completed ack => exact ⟨fun heq => (by cases heq), fun hne => absurd h.2.1 hne.2⟩
  | threw message => exact ⟨fun heq => (by cases heq), fun hne => absurd h.2.1 hne.2⟩

/-- The answer to a claim of the first request, by the ack of the id. -/
def answerOf : Option JsonValue → CommandAnswer
  | none => .pending
  | some ack =>
    if isAckObject ack.value then .completed ack.value
    else .threw "durable command result is corrupt"

/-- The answer that the next statement of a claim gives. -/
theorem CommandInv.answersNow (h : CommandInv w) {id name : String} {args : JsonValue}
    {inserted : Bool} (hcall : w.calls c = some ⟨.claim id name args, .wrote inserted⟩) (nowMs : ℤ) :
    ∃ first firstName firstArgs answer, IsFirst w id first firstName firstArgs ∧
      (commandStep w (.step c nowMs)).calls c = some ⟨.claim id name args, .answered answer⟩ ∧
      (c ≠ first → name = firstName → Same (orEmpty args.value) (orEmpty firstArgs.value) →
        answer = answerOf (w.completion id)) := by
  obtain ⟨first, hfirst, hinserted⟩ := h.calls c _ hcall
  obtain ⟨firstName, firstArgs, row, hrow⟩ := h.claimants id first hfirst
  refine ⟨first, firstName, firstArgs, claimAnswer (some row) inserted name args,
    hrow.isFirst hfirst, ?_, fun hne hname hargs => ?_⟩
  · simp only [commandStep, hcall, CommandWorld.stepCall]
    rw [hrow.found]
    exact Function.update_self _ _ _
  · have hagrees : ¬ (row.commandName ≠ name ∨ row.argsJson ≠ stableJson args.value) := by
      rw [hrow.commandName, hrow.argsJson, hname, (stableJson_eq_iff args firstArgs).mpr hargs]
      simp
    obtain rfl : inserted = false := Bool.eq_false_iff.mpr fun heq => hne (hinserted.mp heq)
    rcases hrow.completion with ⟨hnone, hpending⟩ | ⟨ack, hack, hcompleted, hjson⟩
    · rw [claimAnswer_pending hagrees hpending, hnone]
      rfl
    · rw [claimAnswer_completed hagrees hcompleted hjson, hack]
      rfl

end Inv

/-- **A command id has one effect.**  Of the claims of an id, the one that has inserted the row is
claimed and no other; a claim that names another command or other arguments is told so; a claim of the
same request gets the ack of the id once there is one; and a completed row stays what it is. -/
theorem command_has_one_effect {before after : List CommandOp}
    (hops : Runs.Meets commandStep NothingExpired {} (before ++ after)) :
    let w := Runs.run commandStep {} before
    let w' := Runs.run commandStep {} (before ++ after)
    (∀ id first second name name' args args',
      w'.calls first = some ⟨.claim id name args, .answered .claimed⟩ →
      w'.calls second = some ⟨.claim id name' args', .answered .claimed⟩ → first = second) ∧
    (∀ c id name args answer, w'.calls c = some ⟨.claim id name args, .answered answer⟩ →
      ∃ first firstName firstArgs, IsFirst w' id first firstName firstArgs ∧
        (answer = .claimed ↔ c = first) ∧
        (answer = .conflict ↔ c ≠ first ∧
          ¬ (name = firstName ∧ Same (orEmpty args.value) (orEmpty firstArgs.value)))) ∧
    (∀ c id name args inserted nowMs, w.calls c = some ⟨.claim id name args, .wrote inserted⟩ →
      ∃ first firstName firstArgs answer, IsFirst w id first firstName firstArgs ∧
        (commandStep w (.step c nowMs)).calls c = some ⟨.claim id name args, .answered answer⟩ ∧
        (c ≠ first → name = firstName → Same (orEmpty args.value) (orEmpty firstArgs.value) →
          answer = answerOf (w.completion id))) ∧
    (∀ id ack, w.completion id = some ack → w'.completion id = some ack) ∧
    (∀ row ∈ w.rows, ∃ row' ∈ w'.rows, row'.commandId = row.commandId ∧
      row'.commandName = row.commandName ∧ row'.argsJson = row.argsJson ∧
      (row.completed = true → row' = row ∧
        ∃ ack, w.completion row.commandId = some ack ∧ row.ackJson = some (stringify ack.value))) := by
  intro w w'
  have hinv : CommandInv w := commandInv_run (Runs.meets_append.mp hops).1
  have hinv' : CommandInv w' := commandInv_run hops
  have hkept : CommandKept w w' := commandKept_run hops
  refine ⟨fun id first second name name' args args' hfirst hsecond => ?_,
    fun c id name args answer hcall => ?_,
    fun c id name args inserted nowMs hcall => hinv.answersNow hcall nowMs,
    hkept.completion, fun row hrow => ?_⟩
  · obtain ⟨one, _, _, hone, hanswer⟩ := hinv'.answered hfirst
    obtain ⟨two, _, _, htwo, hanswer'⟩ := hinv'.answered hsecond
    have hsame : one = two := Option.some.inj (hone.claimant.symm.trans htwo.claimant)
    exact ((answeredAs_claimed_iff hanswer).mp rfl).trans
      (hsame.trans ((answeredAs_claimed_iff hanswer').mp rfl).symm)
  · obtain ⟨first, firstName, firstArgs, hfirst, hanswer⟩ := hinv'.answered hcall
    exact ⟨first, firstName, firstArgs, hfirst, answeredAs_claimed_iff hanswer,
      answeredAs_conflict_iff hanswer⟩
  · obtain ⟨row', hrow', hid, hname, hargs, hdone⟩ := hkept.rows row hrow
    refine ⟨row', hrow', hid, hname, hargs, fun hcompleted => ⟨hdone hcompleted, ?_⟩⟩
    obtain ⟨_, _, _, -, hrowOf⟩ := hinv.rowOf_of_readRow (lookup_of_mem hinv.ids hrow)
    rcases hrowOf.completion with ⟨-, hpending⟩ | ⟨ack, hack, -, hjson⟩
    · rw [hcompleted] at hpending
      cases hpending
    · exact ⟨ack, hack, hjson⟩

/-- A claim, its completion, and a second claim of the request. -/
theorem command_has_one_effect_replayed :
    let args : JsonValue := ⟨.object [], wellFormed_orEmpty .null⟩
    let before : List CommandOp :=
      [.claim 0 "c" "stop" args, .step 0 0, .step 0 0, .complete 1 "c" args, .step 1 0, .step 1 0,
        .claim 2 "c" "stop" args, .step 2 0]
    let w := Runs.run commandStep {} before
    (commandStep w (.step 2 0)).calls 2 =
        some ⟨.claim "c" "stop" args, .answered (.completed (.object []))⟩ ∧
      ∀ row ∈ w.rows, ∃ row' ∈ (Runs.run commandStep {} (before ++ [.step 2 0])).rows,
        row'.commandId = row.commandId := by
  intro args before w
  have hops : Runs.Meets commandStep NothingExpired {} (before ++ [.step 2 0]) := by
    decide +kernel
  obtain ⟨-, -, -, -, hrows⟩ := command_has_one_effect hops
  refine ⟨by with_unfolding_all rfl, fun row hrow => ?_⟩
  obtain ⟨row', hrow', hid, -⟩ := hrows row hrow
  exact ⟨row', hrow', hid⟩

/-- Of two claims with arguments that differ, `null` and an empty object, neither is a conflict; names
that differ in a blank are one name; and an ack that is no object is given to no later claim. -/
theorem command_claims_agree :
    let empty : JsonValue := ⟨.object [], wellFormed_orEmpty .null⟩
    let null : JsonValue := ⟨.null, .null⟩
    let twice (name : String) (args : JsonValue) (ack : List CommandOp) : CommandWorld :=
      Runs.run commandStep {} ([.claim 0 "c" "stop" null, .step 0 0, .step 0 0] ++ ack ++
        [.claim 2 "c" name args, .step 2 0, .step 2 0])
    (¬ Same null.value empty.value ∧
      (twice "stop" empty []).calls 2 = some ⟨.claim "c" "stop" empty, .answered .pending⟩) ∧
    (twice "stop " null []).calls 2 = some ⟨.claim "c" "stop" null, .answered .pending⟩ ∧
    (twice "stop" null [.complete 1 "c" null, .step 1 0, .step 1 0]).calls 2 =
      some ⟨.claim "c" "stop" null, .answered (.threw "durable command result is corrupt")⟩ := by
  intro empty null twice
  refine ⟨⟨fun hsame => (by cases hsame), ?_⟩, ?_, ?_⟩
  · with_unfolding_all rfl
  · with_unfolding_all rfl
  · with_unfolding_all rfl

end PosseClient
