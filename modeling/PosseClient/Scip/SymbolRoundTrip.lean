/-
# Symbol strings read back

The parser of symbol strings against the grammar of the texts it accepts.

* `NameText`, `DescriptorText`, `SymbolText`: the grammar.
* `parseGlobalSymbol_iff`: the parser accepts the texts of the grammar, as what they say.
* `symbolText_print`: a symbol written out is a text of the grammar.
* `scip_symbol_round_trip`: printing and parsing.
-/
import PosseClient.Scip.SymbolStrings

namespace PosseClient

open Doubling Json

/-! ## 1. The grammar -/

/-- A name: an identifier, or any text between backticks. -/
inductive NameText : Utf16 → Utf16 → Prop
  | plain {name : Utf16} (hne : name ≠ []) (hid : ∀ c ∈ name, isIdentifierChar c = true) :
      NameText name name
  | quoted (name : Utf16) : NameText (quotedName name) name

/-- The disambiguator of a method; an empty one is none. -/
inductive DisambiguatorText : Utf16 → Option Utf16 → Prop
  | absent : DisambiguatorText [] none
  | emptyName : DisambiguatorText (quotedName []) none
  | present {text name : Utf16} (htext : NameText text name) (hne : name ≠ []) :
      DisambiguatorText text (some name)

inductive DescriptorText : Utf16 → ScipDescriptor → Prop
  | suffixed (kind : SuffixKind) {text name : Utf16} (htext : NameText text name) :
      DescriptorText (text ++ [kind.unit]) (.suffixed kind name)
  | method {text name inner : Utf16} {disambiguator : Option Utf16} (htext : NameText text name)
      (hinner : DisambiguatorText inner disambiguator) :
      DescriptorText (text ++ 40 :: (inner ++ [41, 46])) (.method name disambiguator)
  | typeParameter {text name : Utf16} (htext : NameText text name) :
      DescriptorText (91 :: (text ++ [93])) (.typeParameter name)
  | parameter {text name : Utf16} (htext : NameText text name) :
      DescriptorText (40 :: (text ++ [41])) (.parameter name)

inductive DescriptorsText : Utf16 → List ScipDescriptor → Prop
  | nil : DescriptorsText [] []
  | cons {text rest : Utf16} {d : ScipDescriptor} {ds : List ScipDescriptor}
      (hd : DescriptorText text d) (hds : DescriptorsText rest ds) :
      DescriptorsText (text ++ rest) (d :: ds)

/-- A field after the scheme: absent, or not a dot and without a space in front. -/
def FieldOk (value : Utf16) : Prop := value ≠ [46] ∧ value.head? ≠ some 32

/-- The four fields with a space after each, and what follows. -/
def fieldsText (symbol : ScipSymbol) (rest : Utf16) : Utf16 :=
  printField symbol.scheme ++ 32 :: (printField symbol.manager ++ 32 ::
    (printField symbol.packageName ++ 32 :: (printField symbol.packageVersion ++ 32 :: rest)))

/-- The text of a global symbol. -/
structure SymbolText (text : Utf16) (symbol : ScipSymbol) : Prop where
  split : ∃ rest, text = fieldsText symbol rest ∧ DescriptorsText rest symbol.descriptors
  scheme : symbol.scheme ≠ []
  notLocal : ¬ localPrefix <+: symbol.scheme ++ [32]
  manager : FieldOk symbol.manager
  packageName : FieldOk symbol.packageName
  packageVersion : FieldOk symbol.packageVersion
  descriptors : symbol.descriptors ≠ []

/-! ## 2. Names -/

/-- No name goes on here. -/
def Ends (tail : Utf16) : Prop := ∀ c ∈ tail.head?, isIdentifierChar c = false ∧ c ≠ 96

theorem ends_cons {c : ℕ} (tail : Utf16) (hid : isIdentifierChar c = false) (hc : c ≠ 96) :
    Ends (c :: tail) := by
  intro x hx
  cases hx
  exact ⟨hid, hc⟩

theorem suffix_ends (kind : SuffixKind) (tail : Utf16) : Ends (kind.unit :: tail) := by
  cases kind <;> exact ends_cons tail (by decide) (by decide)

theorem stop_of_ends {tail : Utf16} (h : Ends tail) : Stop 96 (96 :: tail) := by
  refine stop_cons ?_
  intro hhead
  exact (h 96 hhead).2 rfl

theorem consumeChar_of_head_ne {cursor : Utf16} {ch : ℕ} (h : cursor.head? ≠ some ch) :
    consumeChar cursor ch = none := consumeChar_eq_none.mpr h

theorem identifierUnits_mem (terminator : Option ℕ) (cursor : Utf16) :
    ∀ c ∈ (identifierUnits terminator cursor).1, isIdentifierChar c = true := by
  induction cursor with
  | nil => simp [identifierUnits]
  | cons ch rest ih =>
    simp only [identifierUnits]
    split_ifs with hterm hid
    · simp
    · simp
    · intro c hc
      rcases List.mem_cons.mp hc with rfl | hc
      · simpa using hid
      · exact ih c hc

theorem identifierUnits_ends {terminator : Option ℕ} {tail : Utf16} (h : Ends tail) :
    identifierUnits terminator tail = ([], tail) := by
  cases tail with
  | nil => rfl
  | cons c rest =>
    have hid : isIdentifierChar c = false := (h c rfl).1
    simp [identifierUnits, hid]

/-- An identifier is read up to where it ends; no bracket that closes a name belongs to one. -/
theorem identifierUnits_text {terminator : Option ℕ}
    (hterm : ∀ c ∈ terminator, isIdentifierChar c = false) {name tail : Utf16}
    (hid : ∀ c ∈ name, isIdentifierChar c = true) (h : Ends tail) :
    identifierUnits terminator (name ++ tail) = (name, tail) := by
  induction name with
  | nil => exact identifierUnits_ends h
  | cons c rest ih =>
    have hc : isIdentifierChar c = true := hid c (by simp)
    have hne : terminator ≠ some c := by
      intro heq
      have hfalse := hterm c heq
      rw [hc] at hfalse
      cases hfalse
    simp [identifierUnits, hne, hc, ih (fun x hx => hid x (by simp [hx]))]

/-- **A name is read from its text.** -/
theorem readName_text {terminator : Option ℕ}
    (hterm : ∀ c ∈ terminator, isIdentifierChar c = false) (allowEmpty : Bool)
    {text name tail : Utf16} (htext : NameText text name) (h : Ends tail) :
    readName (text ++ tail) terminator allowEmpty = .ok (name, tail) := by
  cases htext with
  | plain hne hid =>
    have hopen : consumeChar (text ++ tail) 96 = none := by
      cases text with
      | nil => exact absurd rfl hne
      | cons c rest =>
        refine consumeChar_of_head_ne ?_
        intro hhead
        have hc := hid c (by simp)
        cases hhead
        cases hc
    unfold readName
    simp [hopen, identifierUnits_text hterm hid h, hne]
  | quoted =>
    have hread : readDoubled 96 (doubled 96 name ++ (96 :: tail)) = (name, 96 :: tail) :=
      readDoubled_doubled (stop_of_ends h) name
    unfold readName
    simp [quotedName, hread]

/-- **What is read as a name was the text of it**, or nothing where nothing may stand. -/
theorem readName_sound {cursor name rest : Utf16} {terminator : Option ℕ} {allowEmpty : Bool}
    (h : readName cursor terminator allowEmpty = .ok (name, rest)) :
    ∃ text, cursor = text ++ rest ∧
      (NameText text name ∨ allowEmpty = true ∧ text = [] ∧ name = []) := by
  unfold readName at h
  cases hopen : consumeChar cursor 96 with
  | some quoted =>
    simp only [hopen] at h
    split at h
    case h_1 tail hclose =>
      cases h
      refine ⟨quotedName (readDoubled 96 quoted).1, ?_, Or.inl (.quoted _)⟩
      have hparts := (eq_doubled_append 96 quoted).1
      rw [eq_cons_of_consumeChar hclose] at hparts
      rw [eq_cons_of_consumeChar hopen, quotedName, List.cons_append, List.append_assoc,
        List.singleton_append, ← hparts]
    case h_2 => cases h
  | none =>
    simp only [hopen] at h
    split at h
    case isTrue => cases h
    case isFalse hempty =>
      injection h with h
      have hparts := identifierUnits_append terminator cursor
      have hmem := identifierUnits_mem terminator cursor
      rw [h] at hparts hmem hempty
      refine ⟨name, hparts.symm, ?_⟩
      by_cases hne : name = []
      · refine Or.inr ⟨?_, hne, hne⟩
        simpa [hne] using hempty
      · exact Or.inl (.plain hne hmem)

/-! ## 3. Descriptors -/

theorem readBracketed_text {closing : ℕ} (hid : isIdentifierChar closing = false)
    (hclosing : closing ≠ 96) (notTerminated : Utf16 → ScipSymbolError)
    {text name : Utf16} (htext : NameText text name) (tail : Utf16) :
    readBracketed (text ++ closing :: tail) closing notTerminated = .ok (name, tail) := by
  have hterm : ∀ c ∈ some closing, isIdentifierChar c = false := by
    intro c hc
    cases hc
    exact hid
  unfold readBracketed
  simp [readName_text hterm false htext (ends_cons tail hid hclosing)]

theorem readBracketed_sound {cursor name rest : Utf16} {closing : ℕ}
    {notTerminated : Utf16 → ScipSymbolError}
    (h : readBracketed cursor closing notTerminated = .ok (name, rest)) :
    ∃ text, cursor = text ++ closing :: rest ∧ NameText text name := by
  unfold readBracketed at h
  split at h
  case h_1 => cases h
  case h_2 hname =>
    split at h
    case h_1 => cases h
    case h_2 hclose =>
      cases h
      rcases readName_sound hname with ⟨text, hcursor, htext | ⟨hempty, _, _⟩⟩
      · exact ⟨text, by rw [hcursor, eq_cons_of_consumeChar hclose], htext⟩
      · cases hempty

theorem readName_disambiguator {inner : Utf16} {disambiguator : Option Utf16}
    (h : DisambiguatorText inner disambiguator) (tail : Utf16) :
    readName (inner ++ 41 :: tail) (some 41) true =
      .ok (disambiguator.getD [], 41 :: tail) := by
  have hterm : ∀ c ∈ some 41, isIdentifierChar c = false := by decide
  have hends : Ends (41 :: tail) := ends_cons tail (by decide) (by decide)
  cases h with
  | absent => simp [readName, consumeChar, identifierUnits]
  | emptyName => exact readName_text hterm true (.quoted []) hends
  | present htext => exact readName_text hterm true htext hends

theorem readMethod_text (name : Utf16) {inner : Utf16} {disambiguator : Option Utf16}
    (h : DisambiguatorText inner disambiguator) (tail : Utf16) :
    readMethod name (inner ++ 41 :: 46 :: tail) = .ok (.method name disambiguator, tail) := by
  unfold readMethod
  rw [readName_disambiguator h]
  cases h with
  | absent => simp
  | emptyName => simp
  | present htext hne => simp [hne]

theorem readMethod_sound {name cursor rest : Utf16} {d : ScipDescriptor}
    (h : readMethod name cursor = .ok (d, rest)) :
    ∃ inner disambiguator, cursor = inner ++ 41 :: 46 :: rest ∧ d = .method name disambiguator ∧
      DisambiguatorText inner disambiguator := by
  unfold readMethod at h
  split at h
  case h_1 => cases h
  case h_2 disambiguator tail hname =>
    split at h
    case h_1 => cases h
    case h_2 hclose =>
      split at h
      case h_1 => cases h
      case h_2 hdot =>
        cases h
        rcases readName_sound hname with ⟨inner, hcursor, hinner⟩
        rw [eq_cons_of_consumeChar hclose, eq_cons_of_consumeChar hdot] at hcursor
        refine ⟨inner, _, hcursor, rfl, ?_⟩
        rcases hinner with htext | ⟨_, rfl, rfl⟩
        · by_cases hempty : disambiguator = []
          · subst hempty
            cases htext with
            | plain hne => exact absurd rfl hne
            | quoted => exact .emptyName
          · rw [if_neg hempty]
            exact .present htext hempty
        · exact .absent

theorem suffixKindOf_unit (kind : SuffixKind) : suffixKindOf kind.unit = some kind := by
  cases kind <;> rfl

theorem unit_of_suffixKindOf {suffix : ℕ} {kind : SuffixKind}
    (h : suffixKindOf suffix = some kind) : suffix = kind.unit := by
  unfold suffixKindOf at h
  split_ifs at h with h1 h2 h3 h4 h5 <;> cases h <;> assumption

theorem readSuffix_sound {name cursor rest : Utf16} {d : ScipDescriptor}
    (h : readSuffix name cursor = .ok (d, rest)) :
    (∃ kind : SuffixKind, cursor = kind.unit :: rest ∧ d = .suffixed kind name) ∨
      ∃ inner disambiguator, cursor = 40 :: (inner ++ 41 :: 46 :: rest) ∧
        d = .method name disambiguator ∧ DisambiguatorText inner disambiguator := by
  cases cursor with
  | nil => cases h
  | cons suffix tail =>
    simp only [readSuffix] at h
    split at h
    case h_1 kind hkind =>
      cases h
      exact Or.inl ⟨kind, by rw [unit_of_suffixKindOf hkind], rfl⟩
    case h_2 =>
      split at h
      case isTrue hopen =>
        rcases readMethod_sound h with ⟨inner, disambiguator, htail, hd, hinner⟩
        exact Or.inr ⟨inner, disambiguator, by rw [hopen, htail], hd, hinner⟩
      case isFalse => cases h

/-- A name begins with an identifier character or a backtick. -/
theorem nameText_head {text name : Utf16} (h : NameText text name) (tail : Utf16) {c : ℕ}
    (hid : isIdentifierChar c = false) (hc : c ≠ 96) : (text ++ tail).head? ≠ some c := by
  cases h with
  | plain hne hids =>
    cases text with
    | nil => exact absurd rfl hne
    | cons x rest =>
      intro hhead
      cases hhead
      rw [hids c (by simp)] at hid
      cases hid
  | quoted => simp [quotedName, Ne.symm hc]

theorem readDescriptor_name {text name : Utf16} (h : NameText text name) {tail : Utf16}
    (hends : Ends tail) : readDescriptor (text ++ tail) = readSuffix name tail := by
  have hname : readName (text ++ tail) none false = .ok (name, tail) :=
    readName_text (by simp) false h hends
  unfold readDescriptor
  rw [consumeChar_of_head_ne (nameText_head h tail (by decide) (by decide)),
    consumeChar_of_head_ne (nameText_head h tail (by decide) (by decide))]
  simp [hname]

/-- **A descriptor is read from its text**, whatever follows. -/
theorem readDescriptor_text {text : Utf16} {d : ScipDescriptor} (h : DescriptorText text d)
    (tail : Utf16) : readDescriptor (text ++ tail) = .ok (d, tail) := by
  cases h with
  | suffixed kind htext =>
    rw [List.append_assoc, List.singleton_append,
      readDescriptor_name htext (suffix_ends kind tail)]
    simp [readSuffix, suffixKindOf_unit]
  | method htext hinner =>
    rw [List.append_assoc, List.cons_append, readDescriptor_name htext
      (ends_cons _ (by decide) (by decide)), List.append_assoc]
    simpa [readSuffix, suffixKindOf] using readMethod_text _ hinner tail
  | typeParameter htext =>
    have hread := readBracketed_text (by decide : isIdentifierChar 93 = false) (by decide)
      .typeParameterNotTerminated htext tail
    simp [readDescriptor, hread, Except.map]
  | parameter htext =>
    have hread := readBracketed_text (by decide : isIdentifierChar 41 = false) (by decide)
      .parameterNotTerminated htext tail
    simp [readDescriptor, consumeChar, hread, Except.map]

/-- **What is read as a descriptor was the text of it.** -/
theorem readDescriptor_sound {cursor rest : Utf16} {d : ScipDescriptor}
    (h : readDescriptor cursor = .ok (d, rest)) :
    ∃ text, cursor = text ++ rest ∧ DescriptorText text d := by
  unfold readDescriptor at h
  split at h
  case h_1 tail hopen =>
    cases hr : readBracketed tail 93 .typeParameterNotTerminated with
    | error e =>
      rw [hr] at h
      cases h
    | ok r =>
      rw [hr] at h
      cases h
      rcases readBracketed_sound hr with ⟨text, htail, htext⟩
      exact ⟨_, by simp [eq_cons_of_consumeChar hopen, htail], .typeParameter htext⟩
  case h_2 =>
    split at h
    case h_1 tail hopen =>
      cases hr : readBracketed tail 41 .parameterNotTerminated with
      | error e =>
        rw [hr] at h
        cases h
      | ok r =>
        rw [hr] at h
        cases h
        rcases readBracketed_sound hr with ⟨text, htail, htext⟩
        exact ⟨_, by simp [eq_cons_of_consumeChar hopen, htail], .parameter htext⟩
    case h_2 =>
      split at h
      case h_1 => cases h
      case h_2 name tail hname =>
        rcases readName_sound hname with ⟨text, hcursor, htext | ⟨hempty, _, _⟩⟩
        · rcases readSuffix_sound h with
            ⟨kind, htail, rfl⟩ | ⟨inner, disambiguator, htail, rfl, hinner⟩
          · exact ⟨_, by simp [hcursor, htail], .suffixed kind htext⟩
          · exact ⟨_, by simp [hcursor, htail], .method htext hinner⟩
        · cases hempty

theorem descriptorText_head {text : Utf16} {d : ScipDescriptor} (h : DescriptorText text d)
    (tail : Utf16) : (text ++ tail).head? ≠ some 32 := by
  cases h with
  | suffixed kind htext =>
    rw [List.append_assoc]
    exact nameText_head htext _ (by decide) (by decide)
  | method htext hinner =>
    rw [List.append_assoc]
    exact nameText_head htext _ (by decide) (by decide)
  | typeParameter htext => simp
  | parameter htext => simp

theorem descriptorText_ne_nil {text : Utf16} {d : ScipDescriptor} (h : DescriptorText text d) :
    text ≠ [] := by
  cases h <;> simp

/-- **The loop reads the texts of descriptors**, and only those. -/
theorem readDescriptors_iff (cursor : Utf16) (ds : List ScipDescriptor) :
    readDescriptors cursor = .ok ds ↔ DescriptorsText cursor ds := by
  constructor
  · intro h
    induction cursor using readDescriptors.induct generalizing ds with
    | case1 =>
      rw [readDescriptors] at h
      cases h
      exact .nil
    | case2 cursor hne e herr =>
      rw [readDescriptors, if_neg hne] at h
      split at h
      case h_1 => cases h
      case h_2 hok =>
        rw [herr] at hok
        cases hok
    | case3 cursor hne d rest hread ih =>
      rw [readDescriptors, if_neg hne] at h
      split at h
      case h_1 => cases h
      case h_2 d' rest' hok =>
        rw [hread] at hok
        cases hok
        cases hds : readDescriptors rest with
        | error e =>
          rw [hds] at h
          cases h
        | ok ds' =>
          rw [hds] at h
          cases h
          rcases readDescriptor_sound hread with ⟨text, rfl, htext⟩
          exact .cons htext (ih ds' hds)
  · intro h
    induction h with
    | nil => rw [readDescriptors, if_pos rfl]
    | @cons text rest d ds hd hds ih =>
      have hne : ¬ text ++ rest = [] := by
        intro hnil
        exact descriptorText_ne_nil hd (List.append_eq_nil_iff.mp hnil).1
      rw [readDescriptors, if_neg hne]
      split
      case h_1 e herr =>
        rw [readDescriptor_text hd] at herr
        cases herr
      case h_2 d rest hok =>
        rw [readDescriptor_text hd] at hok
        cases hok
        rw [ih]
        rfl

theorem descriptorsText_head {text : Utf16} {ds : List ScipDescriptor}
    (h : DescriptorsText text ds) : text.head? ≠ some 32 := by
  cases h with
  | nil => simp
  | cons hd hds => exact descriptorText_head hd _

/-! ## 4. Package fields -/

theorem readSpacedField_text {value tail : Utf16} (allowEmpty : Bool) (field : PackageField)
    (hvalue : value ≠ []) (htail : tail.head? ≠ some 32) :
    readSpacedField (doubled 32 value ++ 32 :: tail) allowEmpty field = .ok (value, tail) := by
  have hread : readDoubled 32 (doubled 32 value ++ 32 :: tail) = (value, 32 :: tail) :=
    readDoubled_doubled (stop_cons htail) value
  simp [readSpacedField, readPackageField, hread, hvalue]

theorem readSpacedField_sound {cursor value tail : Utf16} {allowEmpty : Bool}
    {field : PackageField} (h : readSpacedField cursor allowEmpty field = .ok (value, tail)) :
    cursor = doubled 32 value ++ 32 :: tail ∧ tail.head? ≠ some 32 ∧
      (allowEmpty = false → value ≠ []) := by
  have hread := eq_doubled_append 32 cursor
  simp only [readSpacedField, readPackageField] at h
  split at h
  case h_1 => cases h
  case h_2 value' rest hfield =>
    split at hfield
    case isTrue => cases hfield
    case isFalse hempty =>
      split at h
      case h_1 => cases h
      case h_2 hspace =>
        cases h
        injection hfield with hfield
        rw [hfield, eq_cons_of_consumeChar hspace] at hread
        rw [hfield] at hempty
        refine ⟨hread.1, ?_, ?_⟩
        · rcases hread.2 with hnil | ⟨rest', hrest, hhead⟩
          · cases hnil
          · cases hrest
            exact hhead
        · intro hallow hnil
          exact hempty ⟨hallow, hnil⟩

/-- What stands in the text for a field. -/
def fieldSpelling (value : Utf16) : Utf16 := if value = [] then [46] else value

theorem printField_eq (value : Utf16) : printField value = doubled 32 (fieldSpelling value) := by
  unfold printField fieldSpelling
  split
  · rfl
  · rfl

theorem fieldSpelling_ne_nil (value : Utf16) : fieldSpelling value ≠ [] := by
  unfold fieldSpelling
  split
  · simp
  · assumption

theorem packageFieldSentinel_spelling {value : Utf16} (h : FieldOk value) :
    packageFieldSentinel (fieldSpelling value) = value := by
  unfold fieldSpelling packageFieldSentinel
  by_cases hnil : value = []
  · simp [hnil]
  · simp [hnil, h.1]

theorem fieldSpelling_sentinel {value : Utf16} (h : value ≠ []) :
    fieldSpelling (packageFieldSentinel value) = value := by
  unfold fieldSpelling packageFieldSentinel
  by_cases hdot : value = [46]
  · simp [hdot]
  · simp [hdot, h]

theorem printField_head {value : Utf16} (h : FieldOk value) (tail : Utf16) :
    (printField value ++ 32 :: tail).head? ≠ some 32 := by
  unfold printField
  by_cases hnil : value = []
  · simp [hnil]
  · rw [if_neg hnil]
    cases hvalue : doubled 32 value with
    | nil => exact absurd (doubled_eq_nil.mp hvalue) hnil
    | cons c rest =>
      have hhead := head?_doubled 32 value
      rw [hvalue] at hhead
      rw [List.cons_append, List.head?_cons, ← List.head?_cons (a := c) (l := rest), hhead]
      exact h.2

/-- A field after the scheme, as it was read: its spelling was not empty, and its value is one that
is written so. -/
theorem readSpacedField_field {cursor value tail : Utf16} {field : PackageField}
    (h : readSpacedField cursor true field = .ok (value, tail)) (hhead : cursor.head? ≠ some 32) :
    cursor = printField (packageFieldSentinel value) ++ 32 :: tail ∧
      FieldOk (packageFieldSentinel value) ∧ tail.head? ≠ some 32 := by
  rcases readSpacedField_sound h with ⟨hcursor, htail, _⟩
  have hvalue : value ≠ [] := by
    rintro rfl
    rw [hcursor] at hhead
    exact hhead rfl
  have hfirst : value.head? ≠ some 32 := by
    cases value with
    | nil => exact absurd rfl hvalue
    | cons c rest =>
      intro hc
      have hdoubled := head?_doubled 32 (c :: rest)
      rw [hc] at hdoubled
      rw [hcursor, List.head?_append, hdoubled] at hhead
      exact hhead rfl
  refine ⟨by rw [printField_eq, fieldSpelling_sentinel hvalue, hcursor], ⟨?_, ?_⟩, htail⟩
  · unfold packageFieldSentinel
    split
    · simp
    · assumption
  · unfold packageFieldSentinel
    split
    · simp
    · exact hfirst

/-! ## 5. Symbols -/

/-- `local`, without the space. -/
def localWord : Utf16 := [108, 111, 99, 97, 108]

/-- A text of the grammar is no local symbol, and only such texts are global ones. -/
theorem localPrefix_fieldsText {symbol : ScipSymbol} (h : symbol.scheme ≠ []) (rest : Utf16) :
    localPrefix <+: fieldsText symbol rest ↔ localPrefix <+: symbol.scheme ++ [32] := by
  have hword : localPrefix = localWord ++ [32] := rfl
  rw [hword, fieldsText, printField, if_neg h]
  exact doubled_prefix_iff (by decide) _ _

/-- **The parser accepts the texts of the grammar.** -/
theorem parseGlobalSymbol_text {text : Utf16} {symbol : ScipSymbol} (h : SymbolText text symbol) :
    parseGlobalSymbol text = .ok (symbol.parsed text) := by
  rcases h.split with ⟨rest, htext, hds⟩
  have hscheme : readSpacedField text false .scheme = .ok (symbol.scheme,
      printField symbol.manager ++ 32 :: (printField symbol.packageName ++ 32 ::
        (printField symbol.packageVersion ++ 32 :: rest))) := by
    rw [htext, fieldsText, printField, if_neg h.scheme]
    exact readSpacedField_text false _ h.scheme (printField_head h.manager _)
  have hmanager := readSpacedField_text true .manager (fieldSpelling_ne_nil symbol.manager)
    (printField_head h.packageName (printField symbol.packageVersion ++ 32 :: rest))
  have hname := readSpacedField_text true .packageName (fieldSpelling_ne_nil symbol.packageName)
    (printField_head h.packageVersion rest)
  have hversion := readSpacedField_text true .packageVersion
    (fieldSpelling_ne_nil symbol.packageVersion) (descriptorsText_head hds)
  rw [← printField_eq] at hmanager hname hversion
  have hread := (readDescriptors_iff rest symbol.descriptors).mpr hds
  unfold parseGlobalSymbol
  simp only [hscheme, hmanager, hname, hversion, hread, bind, Except.bind, if_neg h.descriptors,
    packageFieldSentinel_spelling h.manager, packageFieldSentinel_spelling h.packageName,
    packageFieldSentinel_spelling h.packageVersion]
  rfl

/-- The reads behind an accepted symbol. -/
theorem parseGlobalSymbol_reads {text : Utf16} {r : ScipParsedSymbol}
    (h : parseGlobalSymbol text = .ok r) :
    ∃ scheme manager packageName packageVersion rest₁ rest₂ rest₃ rest descriptors,
      readSpacedField text false .scheme = .ok (scheme, rest₁) ∧
      readSpacedField rest₁ true .manager = .ok (manager, rest₂) ∧
      readSpacedField rest₂ true .packageName = .ok (packageName, rest₃) ∧
      readSpacedField rest₃ true .packageVersion = .ok (packageVersion, rest) ∧
      readDescriptors rest = .ok descriptors ∧ descriptors ≠ [] ∧
      r = (ScipSymbol.mk scheme (packageFieldSentinel manager) (packageFieldSentinel packageName)
        (packageFieldSentinel packageVersion) descriptors).parsed text := by
  unfold parseGlobalSymbol at h
  rcases hscheme : readSpacedField text false .scheme with e | ⟨scheme, rest₁⟩
  · simp [hscheme, bind, Except.bind] at h
  rcases hmanager : readSpacedField rest₁ true .manager with e | ⟨manager, rest₂⟩
  · simp [hscheme, hmanager, bind, Except.bind] at h
  rcases hname : readSpacedField rest₂ true .packageName with e | ⟨packageName, rest₃⟩
  · simp [hscheme, hmanager, hname, bind, Except.bind] at h
  rcases hversion : readSpacedField rest₃ true .packageVersion with e | ⟨packageVersion, rest⟩
  · simp [hscheme, hmanager, hname, hversion, bind, Except.bind] at h
  rcases hds : readDescriptors rest with e | descriptors
  · simp [hscheme, hmanager, hname, hversion, hds, bind, Except.bind] at h
  simp only [hscheme, hmanager, hname, hversion, hds, bind, Except.bind] at h
  split at h
  case isTrue => cases h
  case isFalse hne =>
    cases h
    exact ⟨scheme, manager, packageName, packageVersion, rest₁, rest₂, rest₃, rest, descriptors,
      rfl, hmanager, hname, hversion, hds, hne, rfl⟩

/-- **What the parser accepts is a text of the grammar**, and the result is what it says. -/
theorem parseGlobalSymbol_sound {text : Utf16} {r : ScipParsedSymbol}
    (hlocal : ¬ localPrefix <+: text) (h : parseGlobalSymbol text = .ok r) :
    SymbolText text r.symbol ∧ r = r.symbol.parsed text := by
  rcases parseGlobalSymbol_reads h with ⟨scheme, manager, packageName, packageVersion, rest₁, rest₂,
    rest₃, rest, descriptors, hscheme, hmanager, hname, hversion, hds, hne, rfl⟩
  rcases readSpacedField_sound hscheme with ⟨htext, hhead₁, hschemeNe⟩
  rcases readSpacedField_field hmanager hhead₁ with ⟨hrest₁, hmanagerOk, hhead₂⟩
  rcases readSpacedField_field hname hhead₂ with ⟨hrest₂, hnameOk, hhead₃⟩
  rcases readSpacedField_field hversion hhead₃ with ⟨hrest₃, hversionOk, _⟩
  let symbol : ScipSymbol := ⟨scheme, packageFieldSentinel manager,
    packageFieldSentinel packageName, packageFieldSentinel packageVersion, descriptors⟩
  have hfields : text = fieldsText symbol rest := by
    rw [fieldsText, ← hrest₃, ← hrest₂, ← hrest₁, printField, if_neg (hschemeNe rfl)]
    exact htext
  refine ⟨⟨⟨rest, hfields, (readDescriptors_iff rest descriptors).mp hds⟩, hschemeNe rfl, ?_,
    hmanagerOk, hnameOk, hversionOk, hne⟩, rfl⟩
  rw [hfields, @localPrefix_fieldsText symbol (hschemeNe rfl)] at hlocal
  exact hlocal

/-! ## 6. Printing -/

/-- What a symbol has to be for its text to be read back. -/
structure Printable (symbol : ScipSymbol) : Prop where
  scheme : symbol.scheme ≠ [] ∧ symbol.scheme ≠ localWord ∧ ¬ localPrefix <+: symbol.scheme
  fields : FieldOk symbol.scheme ∧ FieldOk symbol.manager ∧ FieldOk symbol.packageName ∧
    FieldOk symbol.packageVersion
  descriptors : symbol.descriptors ≠ []
  disambiguators : ∀ name, ScipDescriptor.method name (some []) ∉ symbol.descriptors

theorem nameText_print (name : Utf16) : NameText (printName name) name := by
  unfold printName
  split
  case isTrue h => exact .plain h.1 h.2
  case isFalse => exact .quoted name

theorem descriptorText_print {d : ScipDescriptor} (h : ∀ name, d ≠ .method name (some [])) :
    DescriptorText (printDescriptor d) d := by
  cases d with
  | suffixed kind name => exact .suffixed kind (nameText_print name)
  | typeParameter name => exact .typeParameter (nameText_print name)
  | parameter name => exact .parameter (nameText_print name)
  | method name disambiguator =>
    cases disambiguator with
    | none => exact .method (nameText_print name) .absent
    | some inner =>
      have hinner : inner ≠ [] := by
        rintro rfl
        exact h name rfl
      exact .method (nameText_print name) (.present (nameText_print inner) hinner)

theorem descriptorsText_print {ds : List ScipDescriptor}
    (h : ∀ name, ScipDescriptor.method name (some []) ∉ ds) :
    DescriptorsText (ds.flatMap printDescriptor) ds := by
  induction ds with
  | nil => exact .nil
  | cons d ds ih =>
    refine .cons (descriptorText_print ?_) (ih ?_)
    · rintro name rfl
      exact h name (by simp)
    · intro name hmem
      exact h name (by simp [hmem])

/-- No text of the grammar says that a disambiguator is empty. -/
theorem descriptorsText_disambiguator {text : Utf16} {ds : List ScipDescriptor}
    (h : DescriptorsText text ds) (name : Utf16) : ScipDescriptor.method name (some []) ∉ ds := by
  induction h with
  | nil => simp
  | cons hd hds ih =>
    intro hmem
    rcases List.mem_cons.mp hmem with rfl | hmem
    · cases hd with
      | method _ hinner =>
        cases hinner with
        | present _ hne => exact hne rfl
    · exact ih hmem

/-- **A printable symbol written out** is a text of the grammar. -/
theorem symbolText_print {symbol : ScipSymbol} (h : Printable symbol) :
    SymbolText (printScipSymbol symbol) symbol where
  split := ⟨_, rfl, descriptorsText_print h.disambiguators⟩
  scheme := h.scheme.1
  notLocal := by
    have hword : localPrefix = localWord ++ [32] := rfl
    intro hpre
    rcases List.prefix_concat_iff.mp hpre with heq | hpre
    · rw [hword] at heq
      exact h.scheme.2.1 (List.append_cancel_right heq).symm
    · exact h.scheme.2.2 hpre
  manager := h.fields.2.1
  packageName := h.fields.2.2.1
  packageVersion := h.fields.2.2.2
  descriptors := h.descriptors

/-- What a text of the grammar says, written out, is a text of the grammar again. -/
theorem SymbolText.print {text : Utf16} {symbol : ScipSymbol} (h : SymbolText text symbol) :
    SymbolText (printScipSymbol symbol) symbol := by
  rcases h.split with ⟨rest, _, hds⟩
  exact { h with split := ⟨_, rfl, descriptorsText_print (descriptorsText_disambiguator hds)⟩ }

theorem parseScipSymbol_text {text : Utf16} {symbol : ScipSymbol} (h : SymbolText text symbol) :
    parseScipSymbol text = .ok (symbol.parsed text) := by
  rcases h.split with ⟨rest, htext, _⟩
  have hne : text ≠ [] := by simp [htext, fieldsText]
  have hlocal : ¬ localPrefix <+: text := by
    rw [htext, localPrefix_fieldsText h.scheme]
    exact h.notLocal
  rw [parseScipSymbol, if_neg hne, if_neg hlocal, parseGlobalSymbol_text h]

theorem parseScipSymbol_global {text : Utf16} {r : ScipParsedSymbol}
    (h : parseScipSymbol text = .ok r) (hglobal : r.isLocal = false) :
    SymbolText text r.symbol ∧ r = r.symbol.parsed text := by
  unfold parseScipSymbol at h
  split_ifs at h with hne hlocal
  · cases h
    cases hglobal
  · exact parseGlobalSymbol_sound hlocal h

/-- The result for a local symbol. -/
theorem parseScipSymbol_local {text : Utf16} (h : localPrefix <+: text) :
    ∃ r, parseScipSymbol text = .ok r ∧ r.isLocal = true ∧ text = localPrefix ++ r.localId := by
  rcases h with ⟨localId, rfl⟩
  have hne : localPrefix ++ localId ≠ [] := by simp [localPrefix]
  refine ⟨_, by rw [parseScipSymbol, if_neg hne, if_pos (List.prefix_append _ _)], rfl, ?_⟩
  simp

/-- **Symbol strings round-trip.** A printable symbol is read back from its text; what was read as a
global symbol is read again from what it prints as, with that text as its `raw`; and a text is a
local symbol, a text of the grammar, or refused with an error. -/
theorem scip_symbol_round_trip :
    (∀ symbol : ScipSymbol, Printable symbol →
      parseScipSymbol (printScipSymbol symbol) = .ok (symbol.parsed (printScipSymbol symbol))) ∧
    (∀ (text : Utf16) (r : ScipParsedSymbol), parseScipSymbol text = .ok r → r.isLocal = false →
      parseScipSymbol (printScipSymbol r.symbol) =
        .ok { r with raw := printScipSymbol r.symbol }) ∧
    ∀ text : Utf16,
      (∃ r, parseScipSymbol text = .ok r ∧ r.isLocal = true ∧ text = localPrefix ++ r.localId) ∨
      (∃ symbol, SymbolText text symbol ∧ parseScipSymbol text = .ok (symbol.parsed text)) ∨
      ¬ localPrefix <+: text ∧ (¬ ∃ symbol, SymbolText text symbol) ∧
        ∃ e, parseScipSymbol text = .error e := by
  refine ⟨?_, ?_, ?_⟩
  · intro symbol h
    exact parseScipSymbol_text (symbolText_print h)
  · intro text r h hglobal
    rcases parseScipSymbol_global h hglobal with ⟨htext, hr⟩
    rw [parseScipSymbol_text htext.print]
    rw [hr]
    rfl
  · intro text
    by_cases hlocal : localPrefix <+: text
    · exact Or.inl (parseScipSymbol_local hlocal)
    · by_cases htext : ∃ symbol, SymbolText text symbol
      · rcases htext with ⟨symbol, htext⟩
        exact Or.inr (Or.inl ⟨symbol, htext, parseScipSymbol_text htext⟩)
      · refine Or.inr (Or.inr ⟨hlocal, htext, ?_⟩)
        cases hparse : parseScipSymbol text with
        | error e => exact ⟨e, rfl⟩
        | ok r =>
          cases hglobal : r.isLocal with
          | false => exact absurd ⟨_, (parseScipSymbol_global hparse hglobal).1⟩ htext
          | true =>
            rw [parseScipSymbol, if_neg (by rintro rfl; cases hparse), if_neg hlocal] at hparse
            rw [(parseGlobalSymbol_sound hlocal hparse).2] at hglobal
            cases hglobal

/-- A symbol with a space in its package name and a backtick in a name. -/
def backtickSymbol : ScipSymbol :=
  ⟨units "s", [], units "a b", units "1", [.suffixed .termKind (units "x`y"),
    .method (units "f") (some (units "+1"))]⟩

theorem scip_symbol_round_trip_backtick :
    parseScipSymbol (printScipSymbol backtickSymbol) =
      .ok (backtickSymbol.parsed (printScipSymbol backtickSymbol)) := by
  refine scip_symbol_round_trip.1 backtickSymbol ⟨?_, ?_, ?_, ?_⟩
  · decide
  · refine ⟨?_, ?_, ?_, ?_⟩ <;> exact ⟨by decide, by decide⟩
  · decide
  · simp [backtickSymbol, units]

/-- A scheme that goes on after the word `local` and a space. -/
def localSchemeSymbol : ScipSymbol :=
  ⟨units "local x", [], [], [], [.suffixed .termKind (units "f")]⟩

/-- A method whose disambiguator is there and empty. -/
def emptyDisambiguatorSymbol : ScipSymbol :=
  ⟨units "s", [], [], [], [.method (units "f") (some [])]⟩

/-- Its scheme is neither empty nor `local`, no field begins with a space or is a dot, it has
descriptors, and still its text says something else. -/
def Misread (symbol : ScipSymbol) : Prop :=
  symbol.scheme ≠ [] ∧ symbol.scheme ≠ localWord ∧
    (∀ value ∈ [symbol.scheme, symbol.manager, symbol.packageName, symbol.packageVersion],
      value.head? ≠ some 32 ∧ value ≠ [46]) ∧ symbol.descriptors ≠ [] ∧
    (parseScipSymbol (printScipSymbol symbol)).map ScipParsedSymbol.symbol ≠ .ok symbol

/-- The first is read as a local symbol, the second without the disambiguator. -/
theorem local_scheme_misread :
    Misread localSchemeSymbol ∧ Misread emptyDisambiguatorSymbol := by
  unfold Misread
  decide +kernel

end PosseClient
