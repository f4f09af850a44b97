/-
# SCIP symbol strings

The parser of symbol strings: a scheme, three package fields and a list of descriptors, or the id of
a local symbol. A text is a list of UTF-16 code units and a cursor is the part still to be read.

* `readPackageField`, `readName`, `readDescriptor`: the readers of one part.
* `parseScipSymbol`: the parser.
* `printScipSymbol`: a symbol written out.
-/
import PosseClient.Lib.Doubling
import PosseClient.Lib.Json

namespace PosseClient

open Doubling Json

/-! ## 1. Descriptors and errors -/

/-- The descriptors that one unit after the name tells apart. -/
inductive SuffixKind where
  | namespaceKind
  | typeKind
  | metaKind
  | termKind
  | macroKind
  deriving DecidableEq, Repr

/-- The unit after the name. -/
def SuffixKind.unit : SuffixKind → ℕ
  | namespaceKind => 47
  | typeKind => 35
  | metaKind => 58
  | termKind => 46
  | macroKind => 33

/-- The cases of the `switch` on the suffix, the method's apart. -/
def suffixKindOf (suffix : ℕ) : Option SuffixKind :=
  if suffix = 47 then some .namespaceKind
  else if suffix = 35 then some .typeKind
  else if suffix = 58 then some .metaKind
  else if suffix = 46 then some .termKind
  else if suffix = 33 then some .macroKind
  else none

/-- `ScipDescriptor`. -/
inductive ScipDescriptor where
  | suffixed (kind : SuffixKind) (name : Utf16)
  | method (name : Utf16) (disambiguator : Option Utf16)
  | typeParameter (name : Utf16)
  | parameter (name : Utf16)
  deriving DecidableEq, Repr

/-- The fields after which a space is missing. -/
inductive PackageField where
  | scheme
  | manager
  | packageName
  | packageVersion
  deriving DecidableEq, Repr

def PackageField.label : PackageField → String
  | scheme => "scheme"
  | manager => "manager"
  | packageName => "package_name"
  | packageVersion => "package_version"

/-- The errors of the parser, each with what it names; `rest` is what was still to be read. -/
inductive ScipSymbolError where
  | notNonEmpty
  | missingSpace (field : PackageField)
  | missingDescriptor
  | emptyField (rest : Utf16)
  | typeParameterNotTerminated (rest : Utf16)
  | parameterNotTerminated (rest : Utf16)
  | disambiguatorNotTerminated (rest : Utf16)
  | methodSuffix (rest : Utf16)
  | missingSuffix
  | unexpectedSuffix (suffix : ℕ)
  | unterminatedName
  | emptyIdentifier (rest : Utf16)
  deriving DecidableEq, Repr

/-- The message, for the symbol that was parsed. -/
def ScipSymbolError.message (symbol : Utf16) : ScipSymbolError → Utf16
  | notNonEmpty => units "parseScipSymbol: symbol must be a non-empty string"
  | missingSpace field =>
    units ("parseScipSymbol: missing space after " ++ field.label ++ ": '") ++ symbol ++ units "'"
  | missingDescriptor => units "parseScipSymbol: missing descriptor in '" ++ symbol ++ units "'"
  | emptyField rest =>
    units ("parseScipSymbol: empty field at index " ++ toString (symbol.length - rest.length))
  | typeParameterNotTerminated rest =>
    units ("parseScipSymbol: type_parameter not terminated near index " ++
      toString (symbol.length - rest.length))
  | parameterNotTerminated rest =>
    units ("parseScipSymbol: parameter not terminated near index " ++
      toString (symbol.length - rest.length))
  | disambiguatorNotTerminated rest =>
    units ("parseScipSymbol: method disambiguator not terminated near index " ++
      toString (symbol.length - rest.length))
  | methodSuffix rest =>
    units ("parseScipSymbol: method suffix must end with '.' near index " ++
      toString (symbol.length - rest.length))
  | missingSuffix => units "parseScipSymbol: descriptor missing suffix"
  | unexpectedSuffix suffix =>
    units "parseScipSymbol: unexpected descriptor suffix '" ++ [suffix] ++ units "'"
  | unterminatedName => units "parseScipSymbol: unterminated backtick-quoted name"
  | emptyIdentifier rest =>
    units ("parseScipSymbol: empty identifier near index " ++
      toString (symbol.length - rest.length))

/-! ## 2. Readers -/

/-- `isIdentifierChar`. -/
def isIdentifierChar (c : ℕ) : Bool :=
  (65 ≤ c && c ≤ 90) || (97 ≤ c && c ≤ 122) || (48 ≤ c && c ≤ 57) ||
    c == 0x5f || c == 0x24 || c == 0x2b || c == 0x2d

/-- `consumeChar`: what comes after the unit, if it is the next one. -/
def consumeChar (cursor : Utf16) (ch : ℕ) : Option Utf16 :=
  match cursor with
  | [] => none
  | c :: rest => if c = ch then some rest else none

/-- `readPackageField`: a doubled space is a space, a single one ends the field. -/
def readPackageField (cursor : Utf16) (allowEmpty : Bool) :
    Except ScipSymbolError (Utf16 × Utf16) :=
  let field := readDoubled 32 cursor
  if allowEmpty = false ∧ field.1 = [] then .error (.emptyField field.2) else .ok field

/-- The unquoted loop of `readName`. -/
def identifierUnits (terminator : Option ℕ) : Utf16 → Utf16 × Utf16
  | [] => ([], [])
  | ch :: rest =>
    if terminator = some ch then ([], ch :: rest)
    else if isIdentifierChar ch = false then ([], ch :: rest)
    else (ch :: (identifierUnits terminator rest).1, (identifierUnits terminator rest).2)

/-- `readName`: a name in backticks, where two of them are one, or an identifier. -/
def readName (cursor : Utf16) (terminator : Option ℕ) (allowEmpty : Bool) :
    Except ScipSymbolError (Utf16 × Utf16) :=
  match consumeChar cursor 96 with
  | some quoted =>
    match consumeChar (readDoubled 96 quoted).2 96 with
    | some rest => .ok ((readDoubled 96 quoted).1, rest)
    | none => .error .unterminatedName
  | none =>
    let name := identifierUnits terminator cursor
    if name.1 = [] ∧ allowEmpty = false then .error (.emptyIdentifier name.2) else .ok name

/-- A name up to a closing bracket. -/
def readBracketed (cursor : Utf16) (closing : ℕ) (notTerminated : Utf16 → ScipSymbolError) :
    Except ScipSymbolError (Utf16 × Utf16) :=
  match readName cursor (some closing) false with
  | .error e => .error e
  | .ok (name, rest) =>
    match consumeChar rest closing with
    | none => .error (notTerminated rest)
    | some rest => .ok (name, rest)

/-- The disambiguator of a method, after its opening bracket. -/
def readMethod (name cursor : Utf16) : Except ScipSymbolError (ScipDescriptor × Utf16) :=
  match readName cursor (some 41) true with
  | .error e => .error e
  | .ok (disambiguator, rest) =>
    match consumeChar rest 41 with
    | none => .error (.disambiguatorNotTerminated rest)
    | some rest =>
      match consumeChar rest 46 with
      | none => .error (.methodSuffix rest)
      | some rest =>
        .ok (.method name (if disambiguator = [] then none else some disambiguator), rest)

/-- The suffix after a name. -/
def readSuffix (name cursor : Utf16) : Except ScipSymbolError (ScipDescriptor × Utf16) :=
  match cursor with
  | [] => .error .missingSuffix
  | suffix :: rest =>
    match suffixKindOf suffix with
    | some kind => .ok (.suffixed kind name, rest)
    | none => if suffix = 40 then readMethod name rest else .error (.unexpectedSuffix suffix)

/-- `readDescriptor`. -/
def readDescriptor (cursor : Utf16) : Except ScipSymbolError (ScipDescriptor × Utf16) :=
  match consumeChar cursor 91 with
  | some rest =>
    (readBracketed rest 93 .typeParameterNotTerminated).map fun r => (.typeParameter r.1, r.2)
  | none =>
    match consumeChar cursor 40 with
    | some rest =>
      (readBracketed rest 41 .parameterNotTerminated).map fun r => (.parameter r.1, r.2)
    | none =>
      match readName cursor none false with
      | .error e => .error e
      | .ok (name, rest) => readSuffix name rest

/-! ## 3. Readers only move forward -/

theorem eq_cons_of_consumeChar {cursor rest : Utf16} {ch : ℕ}
    (h : consumeChar cursor ch = some rest) : cursor = ch :: rest := by
  cases cursor with
  | nil => cases h
  | cons c tail =>
    simp only [consumeChar] at h
    split at h
    case isTrue hc =>
      cases h
      rw [hc]
    case isFalse => cases h

@[simp] theorem consumeChar_cons (ch : ℕ) (rest : Utf16) :
    consumeChar (ch :: rest) ch = some rest := by
  simp [consumeChar]

theorem consumeChar_eq_none {cursor : Utf16} {ch : ℕ} :
    consumeChar cursor ch = none ↔ cursor.head? ≠ some ch := by
  cases cursor with
  | nil => simp [consumeChar]
  | cons c rest => simp [consumeChar]

theorem identifierUnits_append (terminator : Option ℕ) (cursor : Utf16) :
    (identifierUnits terminator cursor).1 ++ (identifierUnits terminator cursor).2 = cursor := by
  induction cursor with
  | nil => rfl
  | cons ch rest ih =>
    simp only [identifierUnits]
    split_ifs
    · rfl
    · rfl
    · rw [List.cons_append, ih]

theorem readName_length {cursor name rest : Utf16} {terminator : Option ℕ} {allowEmpty : Bool}
    (h : readName cursor terminator allowEmpty = .ok (name, rest)) :
    rest.length ≤ cursor.length := by
  unfold readName at h
  cases hopen : consumeChar cursor 96 with
  | some quoted =>
    simp only [hopen] at h
    split at h
    case h_1 tail hclose =>
      cases h
      have hle := length_rest_le 96 quoted
      rw [eq_cons_of_consumeChar hclose, List.length_cons] at hle
      rw [eq_cons_of_consumeChar hopen, List.length_cons]
      omega
    case h_2 => cases h
  | none =>
    simp only [hopen] at h
    split at h
    case isTrue => cases h
    case isFalse =>
      have hparts := congrArg List.length (identifierUnits_append terminator cursor)
      injection h with h
      rw [h, List.length_append] at hparts
      dsimp only at hparts
      omega

theorem readBracketed_length {cursor name rest : Utf16} {closing : ℕ}
    {notTerminated : Utf16 → ScipSymbolError}
    (h : readBracketed cursor closing notTerminated = .ok (name, rest)) :
    rest.length < cursor.length := by
  unfold readBracketed at h
  split at h
  case h_1 => cases h
  case h_2 hname =>
    have hle := readName_length hname
    split at h
    case h_1 => cases h
    case h_2 hclose =>
      cases h
      rw [eq_cons_of_consumeChar hclose, List.length_cons] at hle
      omega

theorem readMethod_length {name cursor rest : Utf16} {d : ScipDescriptor}
    (h : readMethod name cursor = .ok (d, rest)) : rest.length < cursor.length := by
  unfold readMethod at h
  split at h
  case h_1 => cases h
  case h_2 hname =>
    have hle := readName_length hname
    split at h
    case h_1 => cases h
    case h_2 hclose =>
      split at h
      case h_1 => cases h
      case h_2 hdot =>
        cases h
        rw [eq_cons_of_consumeChar hclose, List.length_cons, eq_cons_of_consumeChar hdot,
          List.length_cons] at hle
        omega

theorem readSuffix_length {name cursor rest : Utf16} {d : ScipDescriptor}
    (h : readSuffix name cursor = .ok (d, rest)) : rest.length < cursor.length := by
  cases cursor with
  | nil => cases h
  | cons suffix tail =>
    rw [List.length_cons]
    simp only [readSuffix] at h
    split at h
    case h_1 =>
      cases h
      omega
    case h_2 =>
      split at h
      case isTrue =>
        have hlt := readMethod_length h
        omega
      case isFalse => cases h

/-- **Every descriptor takes something off the cursor**, so the loop over them ends. -/
theorem readDescriptor_length {cursor rest : Utf16} {d : ScipDescriptor}
    (h : readDescriptor cursor = .ok (d, rest)) : rest.length < cursor.length := by
  have hbracketed : ∀ {ch closing : ℕ} {tail : Utf16} {notTerminated : Utf16 → ScipSymbolError}
      {make : Utf16 → ScipDescriptor}, consumeChar cursor ch = some tail →
      ((readBracketed tail closing notTerminated).map fun r => (make r.1, r.2)) = .ok (d, rest) →
      rest.length < cursor.length := by
    intro ch closing tail notTerminated make hopen hread
    rw [eq_cons_of_consumeChar hopen, List.length_cons]
    cases hr : readBracketed tail closing notTerminated with
    | error e =>
      rw [hr] at hread
      cases hread
    | ok r =>
      rw [hr] at hread
      cases hread
      have hlt := readBracketed_length hr
      omega
  unfold readDescriptor at h
  split at h
  case h_1 hopen => exact hbracketed hopen h
  case h_2 =>
    split at h
    case h_1 hopen => exact hbracketed hopen h
    case h_2 =>
      split at h
      case h_1 => cases h
      case h_2 hname =>
        have hle := readName_length hname
        have hlt := readSuffix_length h
        omega

/-! ## 4. The parser -/

/-- The loop over the descriptors. -/
def readDescriptors (cursor : Utf16) : Except ScipSymbolError (List ScipDescriptor) :=
  if cursor = [] then .ok []
  else
    match _h : readDescriptor cursor with
    | .error e => .error e
    | .ok (d, rest) => (readDescriptors rest).map fun ds => d :: ds
termination_by cursor.length
decreasing_by exact readDescriptor_length _h

/-- `packageFieldSentinel`: a lone dot stands for an absent field. -/
def packageFieldSentinel (value : Utf16) : Utf16 := if value = [46] then [] else value

/-- `ScipParsedSymbol`. -/
structure ScipParsedSymbol where
  isLocal : Bool
  localId : Utf16
  scheme : Utf16
  manager : Utf16
  packageName : Utf16
  packageVersion : Utf16
  descriptors : List ScipDescriptor
  raw : Utf16
  deriving DecidableEq, Repr

/-- A package field and the space after it. -/
def readSpacedField (cursor : Utf16) (allowEmpty : Bool) (field : PackageField) :
    Except ScipSymbolError (Utf16 × Utf16) :=
  match readPackageField cursor allowEmpty with
  | .error e => .error e
  | .ok (value, rest) =>
    match consumeChar rest 32 with
    | none => .error (.missingSpace field)
    | some rest => .ok (value, rest)

/-- `"local "`. -/
def localPrefix : Utf16 := [108, 111, 99, 97, 108, 32]

/-- The parser on a symbol that is not local. -/
def parseGlobalSymbol (symbol : Utf16) : Except ScipSymbolError ScipParsedSymbol := do
  let (scheme, rest) ← readSpacedField symbol false .scheme
  let (manager, rest) ← readSpacedField rest true .manager
  let (packageName, rest) ← readSpacedField rest true .packageName
  let (packageVersion, rest) ← readSpacedField rest true .packageVersion
  let descriptors ← readDescriptors rest
  if descriptors = [] then .error .missingDescriptor
  else
    .ok
      { isLocal := false
        localId := []
        scheme := scheme
        manager := packageFieldSentinel manager
        packageName := packageFieldSentinel packageName
        packageVersion := packageFieldSentinel packageVersion
        descriptors := descriptors
        raw := symbol }

/-- `parseScipSymbol`. -/
def parseScipSymbol (symbol : Utf16) : Except ScipSymbolError ScipParsedSymbol :=
  if symbol = [] then .error .notNonEmpty
  else if localPrefix <+: symbol then
    .ok
      { isLocal := true
        localId := symbol.drop localPrefix.length
        scheme := []
        manager := []
        packageName := []
        packageVersion := []
        descriptors := []
        raw := symbol }
  else parseGlobalSymbol symbol

/-! ## 5. Printing -/

/-- What a global symbol says. -/
structure ScipSymbol where
  scheme : Utf16
  manager : Utf16
  packageName : Utf16
  packageVersion : Utf16
  descriptors : List ScipDescriptor
  deriving DecidableEq, Repr

/-- The symbol a result describes. -/
def ScipParsedSymbol.symbol (r : ScipParsedSymbol) : ScipSymbol :=
  ⟨r.scheme, r.manager, r.packageName, r.packageVersion, r.descriptors⟩

/-- The result that describes a symbol. -/
def ScipSymbol.parsed (symbol : ScipSymbol) (raw : Utf16) : ScipParsedSymbol :=
  { isLocal := false
    localId := []
    scheme := symbol.scheme
    manager := symbol.manager
    packageName := symbol.packageName
    packageVersion := symbol.packageVersion
    descriptors := symbol.descriptors
    raw := raw }

/-- A field with its spaces doubled, or the dot that stands for an absent one. -/
def printField (value : Utf16) : Utf16 := if value = [] then [46] else doubled 32 value

/-- A name between backticks, its own backticks doubled. -/
def quotedName (name : Utf16) : Utf16 := 96 :: (doubled 96 name ++ [96])

/-- An identifier as it is, any other name quoted. -/
def printName (name : Utf16) : Utf16 :=
  if name ≠ [] ∧ ∀ c ∈ name, isIdentifierChar c = true then name else quotedName name

def printDisambiguator : Option Utf16 → Utf16
  | none => []
  | some disambiguator => printName disambiguator

def printDescriptor : ScipDescriptor → Utf16
  | .suffixed kind name => printName name ++ [kind.unit]
  | .method name disambiguator =>
    printName name ++ 40 :: (printDisambiguator disambiguator ++ [41, 46])
  | .typeParameter name => 91 :: (printName name ++ [93])
  | .parameter name => 40 :: (printName name ++ [41])

def printScipSymbol (symbol : ScipSymbol) : Utf16 :=
  printField symbol.scheme ++ 32 :: (printField symbol.manager ++ 32 ::
    (printField symbol.packageName ++ 32 :: (printField symbol.packageVersion ++ 32 ::
      symbol.descriptors.flatMap printDescriptor)))

end PosseClient
