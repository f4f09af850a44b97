/-
# JSON values and their texts

The values `JSON.parse` gives and `JSON.stringify` takes, and the texts between them.  A text is the
list of its UTF-16 code units.

* A finite number is the text `String(number)` gives, which tells the finite numbers apart (`-0` is
  written and read as `0`).
* `fromEntries` lays the members of an object out as the language does: array indices first, in
  ascending order, then the other keys as they come.
* **`parse_stringify`**: parsing gives back what was written.  With `id` for the layout it holds of all
  values, so that `stringify` is injective on members as they stand.
-/
import Mathlib

namespace PosseClient.Json

/-- A text, by its code units. -/
abbrev Utf16 := List ℕ

/-! ## 1. Values -/

/-- A unit of the text of a number: a digit, a sign, the point or `e`. -/
def isNumberUnit (u : ℕ) : Bool := (48 ≤ u && u ≤ 57) || u == 43 || u == 45 || u == 46 || u == 101

/-- A finite number, by its text. -/
structure Number where
  text : Utf16
  ok : (!text.isEmpty && text.all isNumberUnit) = true
  deriving DecidableEq

inductive Value
  | null
  | bool (b : Bool)
  | number (n : Number)
  | string (s : Utf16)
  | array (items : List Value)
  | object (members : List (Utf16 × Value))

/-- The number of an array index, written without leading zeros. -/
def arrayIndex (key : Utf16) : Option ℕ :=
  let value := key.foldl (fun n u => 10 * n + (u - 48)) 0
  if key ≠ [] ∧ key.all (fun u => 48 ≤ u && u ≤ 57) ∧ (key = [48] ∨ key.head? ≠ some 48) ∧
      value < 4294967295 then some value
  else none

/-- `Object.fromEntries`, for distinct keys. -/
def fromEntries {α : Type*} (members : List (Utf16 × α)) : List (Utf16 × α) :=
  (members.filter fun m => (arrayIndex m.1).isSome).mergeSort
      (fun m m' => decide ((arrayIndex m.1).getD 0 ≤ (arrayIndex m'.1).getD 0)) ++
    members.filter fun m => (arrayIndex m.1).isNone

/-! ## 2. Writing -/

/-- A digit of a `\\u` escape. -/
def hexDigit (n : ℕ) : ℕ := if n < 10 then 48 + n else 87 + n

/-- A `\\u` escape. -/
def unicodeEscape (u : ℕ) : Utf16 :=
  [92, 117, hexDigit (u / 4096 % 16), hexDigit (u / 256 % 16), hexDigit (u / 16 % 16),
    hexDigit (u % 16)]

def isLead (u : ℕ) : Bool := 0xD800 ≤ u && u ≤ 0xDBFF

def isTrail (u : ℕ) : Bool := 0xDC00 ≤ u && u ≤ 0xDFFF

/-- A unit of a string that is no surrogate. -/
def escapeUnit (u : ℕ) : Utf16 :=
  if u = 8 then [92, 98] else if u = 9 then [92, 116] else if u = 10 then [92, 110]
  else if u = 12 then [92, 102] else if u = 13 then [92, 114] else if u = 34 then [92, 34]
  else if u = 92 then [92, 92] else if u < 32 then unicodeEscape u else [u]

/-- The units between the quotes; a surrogate without its other half is escaped. -/
def escape : Utf16 → Utf16
  | [] => []
  | u :: rest =>
    if isLead u then
      match rest with
      | v :: rest' =>
        if isTrail v then u :: v :: escape rest' else unicodeEscape u ++ escape (v :: rest')
      | [] => unicodeEscape u
    else if isTrail u then unicodeEscape u ++ escape rest
    else escapeUnit u ++ escape rest

def quote (s : Utf16) : Utf16 := 34 :: escape s ++ [34]

mutual

/-- `JSON.stringify`. -/
def stringify : Value → Utf16
  | .null => [110, 117, 108, 108]
  | .bool true => [116, 114, 117, 101]
  | .bool false => [102, 97, 108, 115, 101]
  | .number n => n.text
  | .string s => quote s
  | .array items => 91 :: stringifyItems items ++ [93]
  | .object members => 123 :: stringifyMembers members ++ [125]

def stringifyItems : List Value → Utf16
  | [] => []
  | [v] => stringify v
  | v :: rest => stringify v ++ 44 :: stringifyItems rest

def stringifyMembers : List (Utf16 × Value) → Utf16
  | [] => []
  | [(k, v)] => quote k ++ 58 :: stringify v
  | (k, v) :: rest => quote k ++ 58 :: stringify v ++ 44 :: stringifyMembers rest

end

/-- `String(n)` of a natural number. -/
def natText (n : ℕ) : Utf16 := if n < 10 then [48 + n] else natText (n / 10) ++ [48 + n % 10]

theorem natText_units (n : ℕ) : ∀ u ∈ natText n, 48 ≤ u ∧ u ≤ 57 := by
  fun_induction natText n with
  | case1 n h =>
    intro u hu
    obtain rfl := List.mem_singleton.mp hu
    omega
  | case2 n h ih =>
    intro u hu
    rcases List.mem_append.mp hu with hu | hu
    · exact ih u hu
    · obtain rfl := List.mem_singleton.mp hu
      omega

theorem natText_ne_nil (n : ℕ) : natText n ≠ [] := by
  unfold natText
  split <;> simp

/-- A number below `10 ^ k` has at most `k` digits. -/
theorem natText_length_le {k n : ℕ} (hk : 0 < k) (h : n < 10 ^ k) : (natText n).length ≤ k := by
  induction k generalizing n with
  | zero => omega
  | succ k ih =>
    unfold natText
    split
    · simp
    · have hdiv : n / 10 < 10 ^ k := by
        rw [pow_succ] at h
        omega
      have hpos : 0 < k := by
        rcases Nat.eq_zero_or_pos k with rfl | hpos
        · omega
        · exact hpos
      have := ih hpos hdiv
      simp
      omega

theorem natText_ok (n : ℕ) : (!(natText n).isEmpty && (natText n).all isNumberUnit) = true := by
  have hall : (natText n).all isNumberUnit = true := List.all_eq_true.mpr fun u hu => by
    have := natText_units n u hu
    simp [isNumberUnit, this]
  simp [natText_ne_nil, hall]

/-- A natural number, as a value. -/
def ofNat (n : ℕ) : Value := .number ⟨natText n, natText_ok n⟩

/-- A text of the language without surrogates, by its code units. -/
def units (s : String) : Utf16 := s.toList.map Char.toNat

/-! ## 3. Reading -/

def fromHexDigit (c : ℕ) : ℕ := if c < 58 then c - 48 else c - 87

/-- The unit of a short escape. -/
def unescapeUnit (c : ℕ) : ℕ :=
  if c = 98 then 8 else if c = 116 then 9 else if c = 110 then 10 else if c = 102 then 12
  else if c = 114 then 13 else c

/-- A string up to its closing quote, and what follows. -/
def unquote : Utf16 → Option (Utf16 × Utf16)
  | 34 :: rest => some ([], rest)
  | 92 :: 117 :: a :: b :: c :: d :: rest =>
    (unquote rest).map fun p =>
      ((fromHexDigit a * 4096 + fromHexDigit b * 256 + fromHexDigit c * 16 + fromHexDigit d) :: p.1,
        p.2)
  | 92 :: c :: rest => (unquote rest).map fun p => (unescapeUnit c :: p.1, p.2)
  | u :: rest => (unquote rest).map fun p => (u :: p.1, p.2)
  | [] => none

/-- The text of a number, and what follows. -/
def readNumber (text : Utf16) : Option (Value × Utf16) :=
  let digits := text.takeWhile isNumberUnit
  if h : (!digits.isEmpty && digits.all isNumberUnit) = true then
    some (.number ⟨digits, h⟩, text.drop digits.length)
  else none

section Parse

variable (layout : List (Utf16 × Value) → List (Utf16 × Value))

mutual

/-- A value at the front of a text, and what follows. -/
def readValue : ℕ → Utf16 → Option (Value × Utf16)
  | 0, _ => none
  | fuel + 1, text =>
    match text with
    | 110 :: 117 :: 108 :: 108 :: rest => some (.null, rest)
    | 116 :: 114 :: 117 :: 101 :: rest => some (.bool true, rest)
    | 102 :: 97 :: 108 :: 115 :: 101 :: rest => some (.bool false, rest)
    | 34 :: rest => (unquote rest).map fun p => (.string p.1, p.2)
    | 91 :: 93 :: rest => some (.array [], rest)
    | 91 :: rest => (readItems fuel rest).map fun p => (.array p.1, p.2)
    | 123 :: 125 :: rest => some (.object (layout []), rest)
    | 123 :: rest => (readMembers fuel rest).map fun p => (.object (layout p.1), p.2)
    | text => readNumber text

def readItems : ℕ → Utf16 → Option (List Value × Utf16)
  | 0, _ => none
  | fuel + 1, text =>
    match readValue fuel text with
    | some (v, 44 :: rest) => (readItems fuel rest).map fun p => (v :: p.1, p.2)
    | some (v, 93 :: rest) => some ([v], rest)
    | _ => none

def readMembers : ℕ → Utf16 → Option (List (Utf16 × Value) × Utf16)
  | 0, _ => none
  | fuel + 1, text =>
    match text with
    | 34 :: rest =>
      match unquote rest with
      | some (k, 58 :: rest) =>
        match readValue fuel rest with
        | some (v, 44 :: rest) => (readMembers fuel rest).map fun p => ((k, v) :: p.1, p.2)
        | some (v, 125 :: rest) => some ([(k, v)], rest)
        | _ => none
      | _ => none
    | _ => none

end

/-- `JSON.parse`, on the texts that `JSON.stringify` writes. -/
def parse (text : Utf16) : Option Value :=
  match readValue layout (text.length + 1) text with
  | some (v, []) => some v
  | _ => none

end Parse

/-! ## 4. Strings come back -/

section Strings

variable {u : ℕ} {rest : Utf16}

theorem fromHexDigit_hexDigit {n : ℕ} (h : n < 16) : fromHexDigit (hexDigit n) = n := by
  unfold fromHexDigit hexDigit
  split_ifs <;> omega

theorem unquote_raw (hquote : u ≠ 34) (hback : u ≠ 92) :
    unquote (u :: rest) = (unquote rest).map fun p => (u :: p.1, p.2) := by
  rw [unquote]
  · exact fun h => absurd h hquote
  · intro a b c d rest' h
    exact absurd h hback
  · intro c rest' h
    exact absurd h hback

theorem unquote_unicodeEscape (h : u < 65536) :
    unquote (unicodeEscape u ++ rest) = (unquote rest).map fun p => (u :: p.1, p.2) := by
  have hvalue : fromHexDigit (hexDigit (u / 4096 % 16)) * 4096 +
      fromHexDigit (hexDigit (u / 256 % 16)) * 256 + fromHexDigit (hexDigit (u / 16 % 16)) * 16 +
        fromHexDigit (hexDigit (u % 16)) = u := by
    rw [fromHexDigit_hexDigit (by omega), fromHexDigit_hexDigit (by omega),
      fromHexDigit_hexDigit (by omega), fromHexDigit_hexDigit (by omega)]
    omega
  unfold unicodeEscape
  rw [List.cons_append, List.cons_append, List.cons_append, List.cons_append, List.cons_append,
    List.cons_append, List.nil_append, unquote, hvalue]

theorem unquote_escapeUnit :
    unquote (escapeUnit u ++ rest) = (unquote rest).map fun p => (u :: p.1, p.2) := by
  unfold escapeUnit
  split_ifs with h8 h9 h10 h12 h13 h34 h92 h32
  · subst h8; simp [unquote, unescapeUnit]
  · subst h9; simp [unquote, unescapeUnit]
  · subst h10; simp [unquote, unescapeUnit]
  · subst h12; simp [unquote, unescapeUnit]
  · subst h13; simp [unquote, unescapeUnit]
  · subst h34; simp [unquote, unescapeUnit]
  · subst h92; simp [unquote, unescapeUnit]
  · exact unquote_unicodeEscape (by omega)
  · exact unquote_raw h34 h92

theorem isLead_bounds (h : isLead u = true) : 0xD800 ≤ u ∧ u ≤ 0xDBFF := by
  simpa [isLead] using h

theorem isTrail_bounds (h : isTrail u = true) : 0xDC00 ≤ u ∧ u ≤ 0xDFFF := by
  simpa [isTrail] using h

theorem unquote_escape (s rest : Utf16) : unquote (escape s ++ 34 :: rest) = some (s, rest) := by
  fun_induction escape s with
  | case1 => simp [unquote]
  | case2 u hlead v rest' htrail ih =>
    -- the two halves of a pair stand as they are
    have hu := isLead_bounds hlead
    have hv := isTrail_bounds htrail
    rw [List.cons_append, List.cons_append, unquote_raw (by omega) (by omega),
      unquote_raw (by omega) (by omega), ih]
    rfl
  | case3 u hlead v rest' htrail ih =>
    have hu := isLead_bounds hlead
    rw [List.append_assoc, unquote_unicodeEscape (by omega), ih]
    rfl
  | case4 u hlead =>
    have hu := isLead_bounds hlead
    rw [unquote_unicodeEscape (by omega)]
    simp [unquote]
  | case5 u rest' hlead htrail ih =>
    have hu := isTrail_bounds htrail
    rw [List.append_assoc, unquote_unicodeEscape (by omega), ih]
    rfl
  | case6 u rest' hlead htrail ih =>
    rw [List.append_assoc, unquote_escapeUnit, ih]
    rfl

end Strings

/-! ## 5. Values come back -/

/-- Induction over a value: the items of an array, the members of an object. -/
theorem value_induction {P : Value → Prop} (null : P .null) (bool : ∀ b, P (.bool b))
    (number : ∀ n, P (.number n)) (string : ∀ s, P (.string s))
    (array : ∀ items, (∀ v ∈ items, P v) → P (.array items))
    (object : ∀ members, (∀ m ∈ members, P m.2) → P (.object members)) (v : Value) : P v := by
  refine @Value.rec P (fun items => ∀ v ∈ items, P v) (fun members => ∀ m ∈ members, P m.2)
    (fun m => P m.2) null bool number string array object ?_ ?_ ?_ ?_ ?_ v
  · intro v hv
    cases hv
  · intro v rest hv hrest w hw
    rcases List.mem_cons.mp hw with rfl | hw
    · exact hv
    · exact hrest w hw
  · intro m hm
    cases hm
  · intro m rest hm hrest m' hm'
    rcases List.mem_cons.mp hm' with rfl | hm'
    · exact hm
    · exact hrest m' hm'
  · intro k v hv
    exact hv

/-- Every object of the value is laid out. -/
inductive LaidOut (layout : List (Utf16 × Value) → List (Utf16 × Value)) : Value → Prop
  | null : LaidOut layout .null
  | bool (b : Bool) : LaidOut layout (.bool b)
  | number (n : Number) : LaidOut layout (.number n)
  | string (s : Utf16) : LaidOut layout (.string s)
  | array (items : List Value) (hitems : ∀ v ∈ items, LaidOut layout v) :
    LaidOut layout (.array items)
  | object (members : List (Utf16 × Value)) (hlayout : layout members = members)
    (hmembers : ∀ m ∈ members, LaidOut layout m.2) : LaidOut layout (.object members)

theorem laidOut_id (v : Value) : LaidOut id v :=
  value_induction .null .bool .number .string .array (fun members => .object members rfl) v

mutual

/-- The fuel a value needs. -/
def size : Value → ℕ
  | .array items => 1 + sizeItems items
  | .object members => 1 + sizeMembers members
  | _ => 1

def sizeItems : List Value → ℕ
  | [] => 0
  | v :: rest => 1 + size v + sizeItems rest

def sizeMembers : List (Utf16 × Value) → ℕ
  | [] => 0
  | (_, v) :: rest => 1 + size v + sizeMembers rest

end

theorem stringifyItems_cons (v w : Value) (rest : List Value) :
    stringifyItems (v :: w :: rest) = stringify v ++ 44 :: stringifyItems (w :: rest) := rfl

theorem stringifyMembers_cons (k : Utf16) (v : Value) (m : Utf16 × Value)
    (rest : List (Utf16 × Value)) : stringifyMembers ((k, v) :: m :: rest) =
      quote k ++ 58 :: stringify v ++ 44 :: stringifyMembers (m :: rest) := rfl

theorem Number.exists_cons (n : Number) : ∃ u rest, n.text = u :: rest ∧ isNumberUnit u = true := by
  obtain ⟨text, hok⟩ := n
  cases text with
  | nil => cases hok
  | cons u rest =>
    simp only [List.isEmpty_cons, Bool.not_false, Bool.true_and, List.all_cons,
      Bool.and_eq_true] at hok
    exact ⟨u, rest, rfl, hok.1⟩

/-- The texts of values begin with no bracket that closes. -/
theorem stringify_head (v : Value) : ∃ u rest, stringify v = u :: rest ∧ u ≠ 93 := by
  cases v with
  | number n =>
    obtain ⟨u, rest, htext, hunit⟩ := n.exists_cons
    refine ⟨u, rest, htext, ?_⟩
    rintro rfl
    cases hunit
  | bool b => cases b <;> exact ⟨_, _, rfl, by decide⟩
  | _ => exact ⟨_, _, rfl, by decide⟩

theorem readNumber_text (n : Number) {rest : Utf16}
    (hrest : ∀ u ∈ rest.head?, isNumberUnit u = false) :
    readNumber (n.text ++ rest) = some (.number n, rest) := by
  obtain ⟨text, hok⟩ := n
  rw [Bool.and_eq_true, List.all_eq_true] at hok
  have htake : (text ++ rest).takeWhile isNumberUnit = text := by
    rw [List.takeWhile_append_of_pos hok.2]
    cases rest with
    | nil => simp
    | cons u rest => simp [hrest u rfl]
  unfold readNumber
  simp only [htake]
  rw [dif_pos (by rw [Bool.and_eq_true, List.all_eq_true]; exact hok), List.drop_left]

/-- Reading a value at the front of a text that goes on with no unit of a number. -/
def ReadsBack (layout : List (Utf16 × Value) → List (Utf16 × Value)) (v : Value) : Prop :=
  ∀ fuel rest, size v ≤ fuel → (∀ u ∈ rest.head?, isNumberUnit u = false) →
    readValue layout fuel (stringify v ++ rest) = some (v, rest)

section ReadsBack

variable {layout : List (Utf16 × Value) → List (Utf16 × Value)}

theorem head_not_number {u : ℕ} {rest : Utf16} (h : isNumberUnit u = false) :
    ∀ w ∈ (u :: rest).head?, isNumberUnit w = false := by
  rintro w hw
  cases hw
  exact h

theorem readItems_stringify {items : List Value} (hne : items ≠ [])
    (hitems : ∀ v ∈ items, ReadsBack layout v) (fuel : ℕ) (rest : Utf16)
    (hfuel : sizeItems items ≤ fuel) :
    readItems layout fuel (stringifyItems items ++ 93 :: rest) = some (items, rest) := by
  induction items generalizing fuel with
  | nil => exact absurd rfl hne
  | cons v items ih =>
    rw [sizeItems] at hfuel
    obtain ⟨fuel, rfl⟩ : ∃ n, fuel = n + 1 := ⟨fuel - 1, by omega⟩
    have hv := hitems v List.mem_cons_self
    rw [readItems]
    cases items with
    | nil =>
      rw [stringifyItems, hv fuel _ (by omega) (head_not_number rfl)]
      rfl
    | cons w items =>
      rw [stringifyItems_cons, List.append_assoc, List.cons_append,
        hv fuel _ (by omega) (head_not_number rfl)]
      exact congrArg (Option.map fun p : List Value × Utf16 => (v :: p.1, p.2))
        (ih (List.cons_ne_nil _ _) (fun u hu => hitems u (List.mem_cons_of_mem _ hu)) fuel
          (by omega))

theorem readMembers_stringify {members : List (Utf16 × Value)} (hne : members ≠ [])
    (hmembers : ∀ m ∈ members, ReadsBack layout m.2) (fuel : ℕ) (rest : Utf16)
    (hfuel : sizeMembers members ≤ fuel) :
    readMembers layout fuel (stringifyMembers members ++ 125 :: rest) = some (members, rest) := by
  induction members generalizing fuel with
  | nil => exact absurd rfl hne
  | cons m members ih =>
    obtain ⟨k, v⟩ := m
    rw [sizeMembers] at hfuel
    obtain ⟨fuel, rfl⟩ : ∃ n, fuel = n + 1 := ⟨fuel - 1, by omega⟩
    have hv : ReadsBack layout v := hmembers (k, v) List.mem_cons_self
    cases members with
    | nil =>
      rw [stringifyMembers, quote]
      simp only [List.cons_append, List.append_assoc, List.nil_append]
      have hvalue := hv fuel (125 :: rest) (by omega) (head_not_number rfl)
      simp only [readMembers, unquote_escape, hvalue]
    | cons m members =>
      rw [stringifyMembers_cons, quote]
      simp only [List.cons_append, List.append_assoc, List.nil_append]
      have hvalue := hv fuel (44 :: (stringifyMembers (m :: members) ++ 125 :: rest)) (by omega)
        (head_not_number rfl)
      have hmore := ih (List.cons_ne_nil _ _)
        (fun u hu => hmembers u (List.mem_cons_of_mem _ hu)) fuel (by omega)
      simp only [readMembers, unquote_escape, hvalue, hmore, Option.map_some]

theorem readsBack_array {items : List Value} (hitems : ∀ v ∈ items, ReadsBack layout v) :
    ReadsBack layout (.array items) := by
  intro fuel rest hfuel _
  rw [size] at hfuel
  obtain ⟨fuel, rfl⟩ : ∃ n, fuel = n + 1 := ⟨fuel - 1, by omega⟩
  rw [stringify]
  cases items with
  | nil => rfl
  | cons v items =>
    have hread := readItems_stringify (List.cons_ne_nil v items) hitems fuel rest (by omega)
    obtain ⟨u, tail, hhead, hopen⟩ : ∃ u tail, stringifyItems (v :: items) = u :: tail ∧ u ≠ 93 := by
      obtain ⟨u, tail, hhead, hopen⟩ := stringify_head v
      cases items with
      | nil => exact ⟨u, tail, hhead, hopen⟩
      | cons w items =>
        rw [stringifyItems_cons, hhead]
        exact ⟨u, _, rfl, hopen⟩
    rw [hhead] at hread ⊢
    simp only [List.cons_append, List.append_assoc, List.nil_append] at hread ⊢
    rw [readValue]
    · rw [hread]
      rfl
    · intro rest' heq
      exact absurd (List.cons.inj heq).1 hopen

theorem readsBack_object {members : List (Utf16 × Value)} (hlayout : layout members = members)
    (hmembers : ∀ m ∈ members, ReadsBack layout m.2) : ReadsBack layout (.object members) := by
  intro fuel rest hfuel _
  rw [size] at hfuel
  obtain ⟨fuel, rfl⟩ : ∃ n, fuel = n + 1 := ⟨fuel - 1, by omega⟩
  rw [stringify]
  cases members with
  | nil =>
    change some (Value.object (layout []), rest) = _
    rw [hlayout]
  | cons m members =>
    have hread := readMembers_stringify (List.cons_ne_nil m members) hmembers fuel rest (by omega)
    obtain ⟨tail, hhead⟩ : ∃ tail, stringifyMembers (m :: members) = 34 :: tail := by
      cases members with
      | nil => exact ⟨_, rfl⟩
      | cons m' members => exact ⟨_, rfl⟩
    rw [hhead] at hread ⊢
    simp only [List.cons_append, List.append_assoc, List.nil_append] at hread ⊢
    rw [readValue]
    · rw [hread]
      exact congrArg (fun l => some (Value.object l, rest)) hlayout
    · intro rest' heq
      cases heq

theorem readsBack_number (n : Number) : ReadsBack layout (.number n) := by
  intro fuel rest hfuel hrest
  obtain ⟨fuel, rfl⟩ : ∃ k, fuel = k + 1 := ⟨fuel - 1, by simp [size] at hfuel; omega⟩
  have hread := readNumber_text n hrest
  obtain ⟨u, tail, htext, hunit⟩ := n.exists_cons
  have hother : u ≠ 110 ∧ u ≠ 116 ∧ u ≠ 102 ∧ u ≠ 34 ∧ u ≠ 91 ∧ u ≠ 123 := by
    refine ⟨?_, ?_, ?_, ?_, ?_, ?_⟩ <;> rintro rfl <;> cases hunit
  rw [stringify, htext, List.cons_append]
  rw [htext, List.cons_append] at hread
  rw [readValue]
  · exact hread
  all_goals
    intros
    simp_all

theorem readsBack_string (s : Utf16) : ReadsBack layout (.string s) := by
  intro fuel rest hfuel _
  obtain ⟨fuel, rfl⟩ : ∃ n, fuel = n + 1 := ⟨fuel - 1, by simp [size] at hfuel; omega⟩
  rw [stringify, quote]
  simp only [List.cons_append, List.append_assoc, List.nil_append, readValue, unquote_escape,
    Option.map_some]

theorem readsBack_word {v : Value} (h : v = .null ∨ ∃ b, v = .bool b) : ReadsBack layout v := by
  intro fuel rest hfuel _
  have hpos : 1 ≤ size v := by
    rcases h with rfl | ⟨b, rfl⟩ <;> simp [size]
  obtain ⟨fuel, rfl⟩ : ∃ n, fuel = n + 1 := ⟨fuel - 1, by omega⟩
  rcases h with rfl | ⟨b, rfl⟩
  · rfl
  · cases b <;> rfl

theorem readsBack {v : Value} (h : LaidOut layout v) : ReadsBack layout v := by
  induction h with
  | null => exact readsBack_word (Or.inl rfl)
  | bool b => exact readsBack_word (Or.inr ⟨b, rfl⟩)
  | number n => exact readsBack_number n
  | string s => exact readsBack_string s
  | array items _ ih => exact readsBack_array ih
  | object members hlayout _ ih => exact readsBack_object hlayout ih

end ReadsBack

theorem sizeItems_le {items : List Value} (h : ∀ v ∈ items, size v ≤ (stringify v).length) :
    sizeItems items ≤ (stringifyItems items).length + 1 := by
  induction items with
  | nil => exact Nat.zero_le _
  | cons v items ih =>
    have hv := h v List.mem_cons_self
    have hrest := ih fun w hw => h w (List.mem_cons_of_mem _ hw)
    rw [sizeItems]
    cases items with
    | nil =>
      rw [stringifyItems, sizeItems]
      omega
    | cons w items =>
      rw [stringifyItems_cons, List.length_append, List.length_cons]
      omega

theorem sizeMembers_le {members : List (Utf16 × Value)}
    (h : ∀ m ∈ members, size m.2 ≤ (stringify m.2).length) :
    sizeMembers members ≤ (stringifyMembers members).length + 1 := by
  induction members with
  | nil => exact Nat.zero_le _
  | cons m members ih =>
    obtain ⟨k, v⟩ := m
    have hv : size v ≤ (stringify v).length := h (k, v) List.mem_cons_self
    have hrest := ih fun w hw => h w (List.mem_cons_of_mem _ hw)
    rw [sizeMembers]
    cases members with
    | nil =>
      rw [stringifyMembers, sizeMembers, List.length_append, List.length_cons]
      omega
    | cons w members =>
      rw [stringifyMembers_cons, List.length_append, List.length_append, List.length_cons,
        List.length_cons]
      omega

theorem size_le_length (v : Value) : size v ≤ (stringify v).length := by
  induction v using value_induction with
  | null => decide
  | bool b => cases b <;> decide
  | number n =>
    obtain ⟨u, rest, htext, -⟩ := n.exists_cons
    rw [stringify, htext]
    simp [size]
  | string s =>
    rw [stringify, quote]
    simp [size]
  | array items ih =>
    have hitems := sizeItems_le ih
    rw [size, stringify, List.length_append, List.length_cons, List.length_singleton]
    omega
  | object members ih =>
    have hmembers := sizeMembers_le ih
    rw [size, stringify, List.length_append, List.length_cons, List.length_singleton]
    omega

/-- **Parsing gives back what was written**, of values whose objects are laid out. -/
theorem parse_stringify {layout : List (Utf16 × Value) → List (Utf16 × Value)} {v : Value}
    (h : LaidOut layout v) : parse layout (stringify v) = some v := by
  have hread := readsBack h ((stringify v).length + 1) [] (by have := size_le_length v; omega)
    (fun u hu => by cases hu)
  rw [List.append_nil] at hread
  rw [parse, hread]

/-- **Writing is injective**, on members as they stand. -/
theorem stringify_injective : Function.Injective stringify := by
  intro v w heq
  have hv := parse_stringify (laidOut_id v)
  rw [heq, parse_stringify (laidOut_id w)] at hv
  exact (Option.some.inj hv).symm

/-! ## 6. Values without the order of members -/

/-- Two values are the same but for the order of the members of objects, at any depth. -/
inductive Same : Value → Value → Prop
  | null : Same .null .null
  | bool (b : Bool) : Same (.bool b) (.bool b)
  | number (n : Number) : Same (.number n) (.number n)
  | string (s : Utf16) : Same (.string s) (.string s)
  | array (items items' : List Value) (hlength : items.length = items'.length)
    (hitems : ∀ (i : ℕ) v v', items[i]? = some v → items'[i]? = some v' → Same v v') :
    Same (.array items) (.array items')
  | object (members members' : List (Utf16 × Value))
    (hkeys : (members.map Prod.fst).Perm (members'.map Prod.fst))
    (hmembers : ∀ k v v', (k, v) ∈ members → (k, v') ∈ members' → Same v v') :
    Same (.object members) (.object members')

/-- A value of the language: the keys of each object are distinct and laid out. -/
inductive WellFormed : Value → Prop
  | null : WellFormed .null
  | bool (b : Bool) : WellFormed (.bool b)
  | number (n : Number) : WellFormed (.number n)
  | string (s : Utf16) : WellFormed (.string s)
  | array (items : List Value) (hitems : ∀ v ∈ items, WellFormed v) : WellFormed (.array items)
  | object (members : List (Utf16 × Value)) (hkeys : (members.map Prod.fst).Nodup)
    (hlayout : fromEntries members = members) (hmembers : ∀ m ∈ members, WellFormed m.2) :
    WellFormed (.object members)

theorem WellFormed.laidOut {v : Value} (h : WellFormed v) : LaidOut fromEntries v := by
  induction h with
  | null => exact .null
  | bool b => exact .bool b
  | number n => exact .number n
  | string s => exact .string s
  | array items _ ih => exact .array items ih
  | object members _ hlayout _ ih => exact .object members hlayout ih

theorem fromEntries_perm {α : Type*} (members : List (Utf16 × α)) :
    (fromEntries members).Perm members := by
  unfold fromEntries
  refine ((List.mergeSort_perm _ _).append_right _).trans ?_
  have hsplit := List.filter_append_perm (fun m : Utf16 × α => (arrayIndex m.1).isSome) members
  refine List.Perm.trans (List.Perm.append_left _ ?_) hsplit
  refine List.Perm.of_eq (List.filter_congr fun m _ => ?_)
  cases arrayIndex m.1 <;> rfl

end PosseClient.Json
