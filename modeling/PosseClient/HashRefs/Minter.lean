/-
# The refs of the hash store

`hash-store.js` and `HashMinter.js`: what a ref looks like, and the table `hash_ref_aliases` of the
refs that are taken.

* `mint` draws refs until one is free; what `crypto.randomInt` gives at each draw is an argument.
* Refs are only added here, beside `release`; `fresh` facts are about the list of taken refs.
-/
import PosseClient.Lib.JsText

namespace PosseClient

/-! ## 1. Refs -/

/-- A character of a ref in lower case.  Beside the letters of ASCII only the Kelvin sign becomes a
character a ref may have. -/
def lowerRefChar (c : Char) : Char := if c.toNat = 0x212A then 'k' else c.toLower

/-- `normalizeHashRefAlias`. -/
def normalizeHashRefAlias (value : String) : String :=
  let raw := (trim value).toList.map lowerRefChar
  if raw = [] then ""
  else if raw.head? = some '#' then String.ofList raw else String.ofList ('#' :: raw)

/-- `DEFAULT_ALPHABET`. -/
def hashAlphabet : List Char := "0123456789abcdefghijklmnopqrstuvwxyz".toList

/-- `HASH_REF_ALIAS_PATTERN.test`. -/
def matchesHashRefAlias (ref : String) : Bool :=
  match ref.toList with
  | '#' :: body => decide (4 ≤ body.length ∧ body.length ≤ 12) && body.all (hashAlphabet.contains ·)
  | _ => false

/-! ## 2. Taken refs -/

/-- A row of `hash_ref_aliases`. -/
structure HashAliasRow where
  ref : String
  width : ℕ
  deriving DecidableEq, Repr

/-- `refExists`. -/
def refExists (aliases : List HashAliasRow) (ref : String) : Bool :=
  aliases.any (fun row => row.ref == normalizeHashRefAlias ref)

/-- `reserve`, for a ref that is not taken. -/
def reserve (aliases : List HashAliasRow) (ref : String) : Except String (List HashAliasRow) :=
  let normalized := normalizeHashRefAlias ref
  if !matchesHashRefAlias normalized then .error s!"Invalid hash ref alias: {ref}"
  else if aliases.any (fun row => row.ref == normalized) then
    .error "UNIQUE constraint failed: hash_ref_aliases.ref"
  else .ok (aliases ++ [⟨normalized, normalized.length - 1⟩])

/-- `release`. -/
def releaseRef (aliases : List HashAliasRow) (ref : String) : List HashAliasRow :=
  aliases.filter (fun row => row.ref != normalizeHashRefAlias ref)

/-- `randomAlias`. -/
def randomAlias (width : ℕ) (randomInt : ℕ → Fin 36) : String :=
  String.ofList ('#' :: (List.range width).map fun i => hashAlphabet.getD (randomInt i) '0')

/-- `chooseWidth`: the first width below the last of which less than 65 percent is taken. -/
def chooseWidth (aliases : List HashAliasRow) : ℕ :=
  ((List.range' 4 8).find? fun width =>
    decide ((aliases.countP (·.width = width)) * 100 < 65 * 36 ^ width)).getD 12

/-- `mint`: eight draws of a width, then the next width.  `randomInt width attempt` is what the
draws give. -/
def mint (aliases : List HashAliasRow) (randomInt : ℕ → ℕ → ℕ → Fin 36) :
    Except String (List HashAliasRow × String) :=
  let first := chooseWidth aliases
  let drawn := (List.range' first (13 - first)).findSome? fun width =>
    ((List.range 8).find? fun attempt =>
      !aliases.any (fun row => row.ref == randomAlias width (randomInt width attempt))).map
      fun attempt => (width, randomAlias width (randomInt width attempt))
  match drawn with
  | some (width, ref) => .ok (aliases ++ [⟨ref, width⟩], ref)
  | none => .error "Unable to mint a unique hash ref up to width 12"

/-! ## 3. What minting and reserving do -/

section Taken

variable {aliases aliases' : List HashAliasRow} {ref : String}

/-- The refs that are taken. -/
def takenRefs (aliases : List HashAliasRow) : List String := aliases.map (·.ref)

theorem refExists_iff :
    refExists aliases ref = true ↔ normalizeHashRefAlias ref ∈ takenRefs aliases := by
  simp [refExists, takenRefs]

theorem randomAlias_matches {width : ℕ} (hlow : 4 ≤ width) (hhigh : width ≤ 12)
    (randomInt : ℕ → Fin 36) : matchesHashRefAlias (randomAlias width randomInt) = true := by
  have hchar : ∀ n : Fin 36, hashAlphabet.contains (hashAlphabet.getD n '0') = true := by
    decide +kernel
  unfold matchesHashRefAlias randomAlias
  rw [String.toList_ofList]
  simp only [List.length_map, List.length_range, hlow, hhigh, and_self, decide_true, Bool.true_and]
  rw [List.all_map, List.all_eq_true]
  exact fun i _ => hchar (randomInt i)

theorem chooseWidth_bounds : 4 ≤ chooseWidth aliases ∧ chooseWidth aliases ≤ 12 := by
  unfold chooseWidth
  cases hfound : (List.range' 4 8).find? fun width =>
      decide ((aliases.countP (·.width = width)) * 100 < 65 * 36 ^ width) with
  | none => simp
  | some width =>
    have hmem := List.mem_range'_1.mp (List.mem_of_find?_eq_some hfound)
    simp only [Option.getD_some]
    omega

/-- **A minted ref was free.** -/
theorem mint_ok {randomInt : ℕ → ℕ → ℕ → Fin 36} (h : mint aliases randomInt = .ok (aliases', ref)) :
    ref ∉ takenRefs aliases ∧ takenRefs aliases' = takenRefs aliases ++ [ref] ∧
      matchesHashRefAlias ref = true := by
  unfold mint at h
  dsimp only at h
  split at h
  · rename_i width drawn hdrawn
    cases h
    obtain ⟨w, hw, hfound⟩ := List.exists_of_findSome?_eq_some hdrawn
    obtain ⟨attempt, hattempt, hpair⟩ := Option.map_eq_some_iff.mp hfound
    cases hpair
    have hfree := List.find?_some hattempt
    have hbounds := @chooseWidth_bounds aliases
    have hrange := List.mem_range'_1.mp hw
    refine ⟨?_, by simp [takenRefs], randomAlias_matches (by omega) (by omega) _⟩
    intro hmem
    obtain ⟨row, hrow, heq⟩ := List.mem_map.mp hmem
    rw [Bool.not_eq_true', List.any_eq_false] at hfree
    exact hfree row hrow (by simpa using heq)
  · cases h

/-- A ref in its public form is normalized. -/
theorem normalizeHashRefAlias_of_matches (h : matchesHashRefAlias ref = true) :
    normalizeHashRefAlias ref = ref := by
  have hplain : ('#' :: hashAlphabet).all (fun c => !isTrimmed c && lowerRefChar c == c) = true := by
    decide +kernel
  unfold matchesHashRefAlias at h
  split at h
  · rename_i body hbody
    have hall : ∀ c ∈ ref.toList, isTrimmed c = false ∧ lowerRefChar c = c := by
      intro c hc
      have hmem : c ∈ '#' :: hashAlphabet := by
        rw [hbody] at hc
        rcases List.mem_cons.mp hc with rfl | hc
        · exact List.mem_cons_self
        · rw [Bool.and_eq_true, List.all_eq_true] at h
          exact List.mem_cons_of_mem _ (List.contains_iff_mem.mp (h.2 c hc))
      simpa using List.all_eq_true.mp hplain c hmem
    have hmap : ref.toList.map lowerRefChar = ref.toList := by
      rw [List.map_congr_left fun c hc => (hall c hc).2, List.map_id']
    unfold normalizeHashRefAlias
    rw [trim_eq_self fun c hc => (hall c hc).1, hmap]
    dsimp only
    rw [if_neg (by simp [hbody]), if_pos (by simp [hbody]), String.ofList_toList]
  · cases h

theorem ne_empty_of_matches (h : matchesHashRefAlias ref = true) : ref ≠ "" := by
  rintro rfl
  cases h

theorem reserve_ok (h : reserve aliases ref = .ok aliases') :
    takenRefs aliases' = takenRefs aliases ++ [normalizeHashRefAlias ref] := by
  unfold reserve at h
  dsimp only at h
  split_ifs at h
  cases h
  simp [takenRefs]

end Taken

-- what a ref looks like is not needed any more
attribute [irreducible] normalizeHashRefAlias matchesHashRefAlias

end PosseClient
