/-
# `decode.js`: SCIP indexes from their bytes

Only the fields that the consumer uses are decoded; the others are skipped.  A torn document keeps
what was read of it and says why the rest is missing; torn metadata and external symbols leave no
trace; a torn frame at the top level ends the index.

* `decodeScipIndex_eq_ok`: no bytes at all make it throw.
* `decodeScipIndex_append`: what follows some bytes only adds documents and external symbols to
  what the bytes hold.
* `countScipDocuments_eq`: the count of the stager is the number of documents that are decoded.
-/
import PosseClient.Scip.ProtoReader

namespace PosseClient

open Readers WireFormat

/-! ## 1. The records -/

structure ScipToolInfo where
  name : String := ""
  version : String := ""
  arguments : List String := []
  deriving DecidableEq, Repr

structure ScipMetadata where
  tool_info : ScipToolInfo := {}
  project_root : String := ""
  text_document_encoding : ℤ := 0
  protocol_version : ℤ := 0
  deriving DecidableEq, Repr

structure ScipOccurrence where
  range : List ℤ := []
  symbol : String := ""
  symbol_roles : ℤ := 0
  syntax_kind : ℤ := 0
  enclosing_range : List ℤ := []
  deriving DecidableEq, Repr

structure ScipSymbolInformation where
  symbol : String := ""
  documentation : List String := []
  kind : ℤ := 0
  display_name : String := ""
  deriving DecidableEq, Repr

structure ScipDocument where
  language : String := ""
  relative_path : String := ""
  occurrences : List ScipOccurrence := []
  symbols : List ScipSymbolInformation := []
  text : String := ""
  position_encoding : ℤ := 0
  atlas_skip_reason : Option String := none
  atlas_skip_message : Option String := none
  deriving DecidableEq, Repr

structure ScipIndex where
  metadata : ScipMetadata := {}
  documents : List ScipDocument := []
  external_symbols : List ScipSymbolInformation := []
  deriving DecidableEq, Repr

/-! ## 2. The decoders -/

variable (toText : List UInt8 → String)

/-- A decoder that throws what ends its fields early. -/
def decodeFields {σ : Type*} (consume : FieldConsumer σ) (out : σ) (l : List UInt8) :
    Except String σ :=
  match readAllFields toText consume out l with
  | (out, none) => .ok out
  | (_, some err) => .error err

def pushInt32 (range : List ℤ) : ProtoReader (List ℤ) :=
  fun l => (readInt32 l).map fun found => (range ++ [found.1], found.2)

/-- `while (!sub.done()) out.range.push(sub.readInt32())`. -/
def pushInt32s (range : List ℤ) (sub : List UInt8) : Except String (List ℤ) :=
  match readAll pushInt32 range sub with
  | (range, none) => .ok range
  | (_, some err) => .error err

def consumeToolInfo : FieldConsumer ScipToolInfo
  | 1, 2 => some <| .string fun out s => { out with name := s }
  | 2, 2 => some <| .string fun out s => { out with version := s }
  | 3, 2 => some <| .string fun out s => { out with arguments := out.arguments ++ [s] }
  | _, _ => none

def decodeToolInfo (l : List UInt8) : Except String ScipToolInfo :=
  decodeFields toText consumeToolInfo {} l

def consumeMetadata : FieldConsumer ScipMetadata
  | 1, 0 => some <| .int32 fun out n => { out with protocol_version := n }
  | 2, 2 => some <| .message fun out sub =>
    (decodeToolInfo toText sub).map fun info => { out with tool_info := info }
  | 3, 2 => some <| .string fun out s => { out with project_root := s }
  | 4, 0 => some <| .int32 fun out n => { out with text_document_encoding := n }
  | _, _ => none

def decodeMetadata (l : List UInt8) : Except String ScipMetadata :=
  decodeFields toText (consumeMetadata toText) {} l

def consumeSymbolInformation : FieldConsumer ScipSymbolInformation
  | 1, 2 => some <| .string fun out s => { out with symbol := s }
  | 3, 2 => some <| .string fun out s => { out with documentation := out.documentation ++ [s] }
  | 5, 0 => some <| .int32 fun out n => { out with kind := n }
  | 6, 2 => some <| .string fun out s => { out with display_name := s }
  | _, _ => none

def decodeSymbolInformation (l : List UInt8) : Except String ScipSymbolInformation :=
  decodeFields toText consumeSymbolInformation {} l

/-- Ranges are packed, or one number a field, or both. -/
def consumeOccurrence : FieldConsumer ScipOccurrence
  | 1, 2 => some <| .message fun out sub =>
    (pushInt32s out.range sub).map fun range => { out with range := range }
  | 1, 0 => some <| .int32 fun out n => { out with range := out.range ++ [n] }
  | 2, 2 => some <| .string fun out s => { out with symbol := s }
  | 3, 0 => some <| .int32 fun out n => { out with symbol_roles := n }
  | 5, 0 => some <| .int32 fun out n => { out with syntax_kind := n }
  | 7, 2 => some <| .message fun out sub =>
    (pushInt32s out.enclosing_range sub).map fun range => { out with enclosing_range := range }
  | 7, 0 => some <| .int32 fun out n => { out with enclosing_range := out.enclosing_range ++ [n] }
  | _, _ => none

def decodeOccurrence (l : List UInt8) : Except String ScipOccurrence :=
  decodeFields toText consumeOccurrence {} l

def consumeDocument : FieldConsumer ScipDocument
  | 1, 2 => some <| .string fun out s => { out with relative_path := s }
  | 2, 2 => some <| .message fun out sub =>
    (decodeOccurrence toText sub).map fun occurrence =>
      { out with occurrences := out.occurrences ++ [occurrence] }
  | 3, 2 => some <| .message fun out sub =>
    (decodeSymbolInformation toText sub).map fun info =>
      { out with symbols := out.symbols ++ [info] }
  | 4, 2 => some <| .string fun out s => { out with language := s }
  | 5, 2 => some <| .string fun out s => { out with text := s }
  | 6, 0 => some <| .int32 fun out n => { out with position_encoding := n }
  | _, _ => none

/-- `decodeDocument`: an error stays with the document. -/
def decodeDocument (l : List UInt8) : ScipDocument :=
  match readAllFields toText (consumeDocument toText) {} l with
  | (out, none) => out
  | (out, some err) =>
    { out with atlas_skip_reason := some "scip_decode_error", atlas_skip_message := some err }

/-- Metadata that cannot be decoded become the empty ones. -/
def setMetadata (idx : ScipIndex) (sub : List UInt8) : ScipIndex :=
  match decodeMetadata toText sub with
  | .ok metadata => { idx with metadata := metadata }
  | .error _ => { idx with metadata := {} }

/-- An external symbol that cannot be decoded is left out. -/
def pushExternalSymbol (idx : ScipIndex) (sub : List UInt8) : ScipIndex :=
  match decodeSymbolInformation toText sub with
  | .ok info => { idx with external_symbols := idx.external_symbols ++ [info] }
  | .error _ => idx

def consumeIndex : FieldConsumer ScipIndex
  | 1, 2 => some <| .message fun idx sub => .ok (setMetadata toText idx sub)
  | 2, 2 => some <| .message fun idx sub =>
    .ok { idx with documents := idx.documents ++ [decodeDocument toText sub] }
  | 3, 2 => some <| .message fun idx sub => .ok (pushExternalSymbol toText idx sub)
  | _, _ => none

/-- `decodeScipIndex`.  The sub-message errors that it turns into `STOP_TOP_LEVEL_DECODE` are
errors of the reader, and both only end the loop. -/
def decodeScipIndex (bytes : List UInt8) : Except String ScipIndex :=
  match readAllFields toText (consumeIndex toText) {} bytes with
  | (idx, none) => .ok idx
  | (idx, some err) => if ProtoError err then .ok idx else .error err

variable {toText}

/-! ## 3. Errors -/

theorem map_error {β γ : Type*} {x : Except String β} {f : β → γ} {err : String}
    (h : x.map f = .error err) : x = .error err := by
  cases x with
  | error err' => exact congrArg _ (Except.error.inj h)
  | ok b => cases h

theorem pushInt32_turns (range : List ℤ) : Turns (pushInt32 range) :=
  readInt32_turns.map fun n => range ++ [n]

theorem consumeIndex_proto : ConsumesProto (consumeIndex toText) := by
  intro number wireType use huse s sub err herr
  unfold consumeIndex at huse
  split at huse <;> simp at huse <;> subst huse <;> cases herr

/-- **No bytes make `decodeScipIndex` throw.** -/
theorem decodeScipIndex_eq_ok (bytes : List UInt8) :
    decodeScipIndex toText bytes = .ok (readAllFields toText (consumeIndex toText) {} bytes).1 := by
  unfold decodeScipIndex
  cases hread : readAllFields toText (consumeIndex toText) {} bytes with
  | mk idx stop =>
    cases stop with
    | none => rfl
    | some err =>
      simp only
      rw [if_pos (readAllFields_error consumeIndex_proto hread)]

/-! ## 4. What follows -/

/-- What the index has so far it keeps; the metadata may be replaced. -/
structure ScipIndex.Grows (idx idx' : ScipIndex) : Prop where
  documents : idx.documents <+: idx'.documents
  external_symbols : idx.external_symbols <+: idx'.external_symbols

theorem ScipIndex.Grows.refl (idx : ScipIndex) : idx.Grows idx :=
  ⟨List.prefix_rfl, List.prefix_rfl⟩

theorem ScipIndex.Grows.trans {a b c : ScipIndex} (h : a.Grows b) (h' : b.Grows c) : a.Grows c :=
  ⟨h.documents.trans h'.documents, h.external_symbols.trans h'.external_symbols⟩

theorem setMetadata_grows (idx : ScipIndex) (sub : List UInt8) :
    idx.Grows (setMetadata toText idx sub) := by
  unfold setMetadata
  split <;> exact ⟨List.prefix_rfl, List.prefix_rfl⟩

theorem pushExternalSymbol_grows (idx : ScipIndex) (sub : List UInt8) :
    idx.Grows (pushExternalSymbol toText idx sub) := by
  unfold pushExternalSymbol
  split
  · exact ⟨List.prefix_rfl, List.prefix_append _ _⟩
  · exact .refl idx

/-- What an index does with a field: it takes a sub-message and never fails on it, and it has one
document more where the field is one. -/
theorem consumeIndex_eq_some {number wireType : ℕ} {use : FieldUse ScipIndex}
    (huse : consumeIndex toText number wireType = some use) :
    wireType = 2 ∧ ∃ f : ScipIndex → List UInt8 → ScipIndex,
      use = .message (fun idx sub => .ok (f idx sub)) ∧ ∀ idx sub, idx.Grows (f idx sub) ∧
        (f idx sub).documents.length = idx.documents.length + if number = 2 then 1 else 0 := by
  unfold consumeIndex at huse
  split at huse
  · refine ⟨rfl, setMetadata toText, (Option.some.inj huse).symm, fun idx sub =>
      ⟨setMetadata_grows idx sub, ?_⟩⟩
    unfold setMetadata
    split <;> rfl
  · refine ⟨rfl, _, (Option.some.inj huse).symm, fun idx sub =>
      ⟨⟨List.prefix_append _ _, List.prefix_rfl⟩, ?_⟩⟩
    simp
  · refine ⟨rfl, pushExternalSymbol toText, (Option.some.inj huse).symm, fun idx sub =>
      ⟨pushExternalSymbol_grows idx sub, ?_⟩⟩
    unfold pushExternalSymbol
    split <;> rfl
  · cases huse

theorem fieldTurn_grows {s s' : ScipIndex} {l rest : List UInt8}
    (h : fieldTurn toText (consumeIndex toText) s l = .ok (s', rest)) : s.Grows s' := by
  obtain ⟨tag, after, -, hfield⟩ := andThen_eq_ok h
  cases huse : consumeIndex toText tag.1 tag.2 with
  | some use =>
    obtain ⟨-, f, rfl, hgrows⟩ := consumeIndex_eq_some huse
    rw [huse] at hfield
    obtain ⟨sub, hsub⟩ := FieldUse.read_message_eq_ok hfield
    obtain rfl := Except.ok.inj hsub
    exact (hgrows s sub).1
  | none =>
    simp only [huse] at hfield
    cases hskip : skipField tag.2 after with
    | error err =>
      rw [hskip] at hfield
      cases hfield
    | ok found =>
      rw [hskip] at hfield
      obtain ⟨rfl, -⟩ := Prod.mk.inj (Except.ok.inj hfield)
      exact .refl s

/-- **What follows some bytes only adds to what they hold**: whole documents and external symbols,
behind those that are there.  A file that is cut off has lost nothing else. -/
theorem decodeScipIndex_append (bytes tail : List UInt8) :
    ∃ idx idx', decodeScipIndex toText bytes = .ok idx ∧
      decodeScipIndex toText (bytes ++ tail) = .ok idx' ∧ idx.Grows idx' :=
  ⟨_, _, decodeScipIndex_eq_ok bytes, decodeScipIndex_eq_ok (bytes ++ tail),
    readAll_prefix (fieldTurn_turns _) ScipIndex.Grows.refl ScipIndex.Grows.trans
      (fun _ _ _ _ => fieldTurn_grows) {} bytes tail⟩

/-! ## 5. The count of the stager -/

/-- One turn of `countScipDocumentsInFile`. -/
def countTurn (documents : ℕ) : ProtoReader ℕ :=
  andThen readTag fun tag l => (skipField tag.2 l).map fun found =>
    (if tag = (2, 2) then documents + 1 else documents, found.2)

/-- `countScipDocumentsInFile` of `stager.js`, over the bytes of the file: `none` is its `NaN`. -/
def countScipDocuments (bytes : List UInt8) : Option ℕ :=
  match readAll countTurn 0 bytes with
  | (documents, none) => some documents
  | (_, some _) => none

theorem countTurn_turns (documents : ℕ) : Turns (countTurn documents) :=
  readTag_turns.andThen fun tag => (skipField_local tag.2).map fun _ =>
    if tag = (2, 2) then documents + 1 else documents

/-- What the count takes, the decoder takes. -/
theorem fieldTurn_of_countTurn {idx : ScipIndex} {n' : ℕ} {l rest : List UInt8}
    (h : countTurn idx.documents.length l = .ok (n', rest)) :
    ∃ idx', fieldTurn toText (consumeIndex toText) idx l = .ok (idx', rest) ∧
      idx'.documents.length = n' := by
  obtain ⟨tag, after, htag, hskip⟩ := andThen_eq_ok h
  obtain ⟨number, wireType⟩ := tag
  cases hafter : skipField wireType after with
  | error err =>
    rw [hafter] at hskip
    cases hskip
  | ok found =>
    rw [hafter] at hskip
    obtain ⟨rfl, rfl⟩ := Prod.mk.inj (Except.ok.inj hskip)
    unfold fieldTurn
    rw [andThen_ok htag]
    cases huse : consumeIndex toText number wireType with
    | some use =>
      obtain ⟨rfl, f, rfl, hf⟩ := consumeIndex_eq_some huse
      obtain ⟨sub, hsub⟩ := readSubMessage_of_skip hafter
      refine ⟨f idx sub, FieldUse.read_message hsub, ?_⟩
      rw [(hf idx sub).2]
      by_cases htwo : number = 2 <;> simp [htwo]
    | none =>
      refine ⟨idx, by simp only [hafter]; rfl, ?_⟩
      rw [if_neg]
      rintro hdocument
      obtain ⟨rfl, rfl⟩ := Prod.mk.inj hdocument
      cases huse

/-- **A count is the number of documents that are decoded**, whatever is in them. -/
theorem countScipDocuments_eq {bytes : List UInt8} {n : ℕ}
    (hcount : countScipDocuments bytes = some n) :
    ∃ idx, decodeScipIndex toText bytes = .ok idx ∧ idx.documents.length = n := by
  refine ⟨_, decodeScipIndex_eq_ok bytes, ?_⟩
  have hturn : ∀ (n : ℕ) (idx : ScipIndex) (l : List UInt8) (n' : ℕ) (rest : List UInt8),
      idx.documents.length = n → countTurn n l = .ok (n', rest) →
      ∃ idx', fieldTurn toText (consumeIndex toText) idx l = .ok (idx', rest) ∧
        idx'.documents.length = n' := by
    rintro n idx l n' rest rfl hok
    exact fieldTurn_of_countTurn hok
  unfold countScipDocuments at hcount
  split at hcount
  case h_1 documents hread =>
    obtain rfl := Option.some.inj hcount
    obtain ⟨idx, hidx, hlength⟩ := readAll_simulates countTurn_turns (fieldTurn_turns _) hturn
      (t := {}) rfl hread
    rw [readAllFields, hidx]
    exact hlength
  case h_2 => cases hcount

/-- A document that is torn counts all the same. -/
theorem countScipDocuments_torn :
    ∃ idx, decodeScipIndex (fun _ => "") [18, 2, 10, 9, 18, 0] = .ok idx ∧
      idx.documents.length = 2 :=
  countScipDocuments_eq (by decide)

end PosseClient
