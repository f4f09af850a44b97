/-
# Indexes on the wire

What an index is on the wire, said by the schema and not by the decoder: any encoding of any list
of fields that hold the parts of the index, in any order, with other fields between them.

* `decodeScipIndex_of_isScipIndex`: whatever encodes an index is decoded as it.
* `decodeScipIndex_take`: an encoding that is cut off anywhere is decoded as the documents whose
  frames are whole, and no others.
-/
import PosseClient.Scip.Decode

namespace PosseClient

open Readers WireFormat

variable (toText : List UInt8 → String)

/-! ## 1. The schema -/

/-- The texts of a message under a number. -/
def textsAt (n : ℕ) (fields : List Field) : List String := (bytesAt n fields).map toText

/-- The `int32`s of a message under a number that is not repeated. -/
def int32sAt (n : ℕ) (fields : List Field) : List ℤ := (varintsAt n fields).map int32Of

def IsToolInfo (l : List UInt8) (info : ScipToolInfo) : Prop :=
  ∃ fields, Encodes fields l ∧
    info.name = (textsAt toText 1 fields).getLastD "" ∧
    info.version = (textsAt toText 2 fields).getLastD "" ∧
    info.arguments = textsAt toText 3 fields

def IsSymbolInformation (l : List UInt8) (info : ScipSymbolInformation) : Prop :=
  ∃ fields, Encodes fields l ∧
    info.symbol = (textsAt toText 1 fields).getLastD "" ∧
    info.documentation = textsAt toText 3 fields ∧
    info.kind = (int32sAt 5 fields).getLastD 0 ∧
    info.display_name = (textsAt toText 6 fields).getLastD ""

def IsOccurrence (l : List UInt8) (occurrence : ScipOccurrence) : Prop :=
  ∃ fields, Encodes fields l ∧
    Int32sAt 1 fields occurrence.range ∧
    occurrence.symbol = (textsAt toText 2 fields).getLastD "" ∧
    occurrence.symbol_roles = (int32sAt 3 fields).getLastD 0 ∧
    occurrence.syntax_kind = (int32sAt 5 fields).getLastD 0 ∧
    Int32sAt 7 fields occurrence.enclosing_range

/-- A message that is there at most once; without it the value is the empty one. -/
def AtMostOnce {β : Type*} (Is : List UInt8 → β → Prop) (empty : β) (subs : List (List UInt8))
    (b : β) : Prop :=
  subs = [] ∧ b = empty ∨ ∃ sub, subs = [sub] ∧ Is sub b

def IsMetadata (l : List UInt8) (metadata : ScipMetadata) : Prop :=
  ∃ fields, Encodes fields l ∧
    metadata.protocol_version = (int32sAt 1 fields).getLastD 0 ∧
    AtMostOnce (IsToolInfo toText) {} (bytesAt 2 fields) metadata.tool_info ∧
    metadata.project_root = (textsAt toText 3 fields).getLastD "" ∧
    metadata.text_document_encoding = (int32sAt 4 fields).getLastD 0

def IsDocument (l : List UInt8) (doc : ScipDocument) : Prop :=
  ∃ fields, Encodes fields l ∧
    doc.relative_path = (textsAt toText 1 fields).getLastD "" ∧
    List.Forall₂ (IsOccurrence toText) (bytesAt 2 fields) doc.occurrences ∧
    List.Forall₂ (IsSymbolInformation toText) (bytesAt 3 fields) doc.symbols ∧
    doc.language = (textsAt toText 4 fields).getLastD "" ∧
    doc.text = (textsAt toText 5 fields).getLastD "" ∧
    doc.position_encoding = (int32sAt 6 fields).getLastD 0 ∧
    doc.atlas_skip_reason = none ∧ doc.atlas_skip_message = none

/-- **The encodings of an index.** -/
def IsScipIndex (l : List UInt8) (idx : ScipIndex) : Prop :=
  ∃ fields, Encodes fields l ∧
    AtMostOnce (IsMetadata toText) {} (bytesAt 1 fields) idx.metadata ∧
    List.Forall₂ (IsDocument toText) (bytesAt 2 fields) idx.documents ∧
    List.Forall₂ (IsSymbolInformation toText) (bytesAt 3 fields) idx.external_symbols

variable {toText}

/-! ## 2. What a decoder makes of a field -/

/-- The numbers that a field adds to a range. -/
def fieldInt32s (n : ℕ) : Field → Except String (List ℤ)
  | ⟨number, .varint v⟩ => if number = n then .ok [int32Of v] else .ok []
  | ⟨number, .bytes b⟩ => if number = n then pushInt32s [] b else .ok []
  | _ => .ok []

/-- The values that a field adds when its sub-messages under a number are decoded. -/
def fieldDecoded {β : Type*} (n : ℕ) (decode : List UInt8 → Except String β) :
    Field → Except String (List β)
  | ⟨number, .bytes b⟩ => if number = n then (decode b).map fun x => [x] else .ok []
  | _ => .ok []

/-- The numbers of a packed field come behind those that are there. -/
theorem readAll_pushInt32 (range xs : List ℤ) (sub : List UInt8) :
    readAll pushInt32 (range ++ xs) sub =
      (range ++ (readAll pushInt32 xs sub).1, (readAll pushInt32 xs sub).2) := by
  induction xs, sub using readAll_induction pushInt32_turns with
  | nil xs => rfl
  | stop xs sub err hne hturn =>
    have hstop : ∀ range, pushInt32 range sub = .error err := by
      intro range
      rw [pushInt32, map_error hturn]
      rfl
    rw [readAll_error hne (hstop _), readAll_error hne (hstop _)]
  | turn xs sub xs' rest hturn ih =>
    cases hint : readInt32 sub with
    | error err =>
      rw [pushInt32, hint] at hturn
      cases hturn
    | ok found =>
      have hgo : ∀ range : List ℤ, pushInt32 range sub = .ok (range ++ [found.1], found.2) :=
        fun range => by rw [pushInt32, hint]; rfl
      obtain ⟨rfl, rfl⟩ := Prod.mk.inj (Except.ok.inj ((hgo xs).symm.trans hturn))
      rw [readAll_ok pushInt32_turns (hgo _), readAll_ok pushInt32_turns (hgo _),
        List.append_assoc]
      exact ih

theorem pushInt32s_eq (range : List ℤ) (sub : List UInt8) :
    pushInt32s range sub = (pushInt32s [] sub).map fun xs => range ++ xs := by
  have hwhole := readAll_pushInt32 range [] sub
  rw [List.append_nil] at hwhole
  unfold pushInt32s
  rw [hwhole]
  cases readAll pushInt32 [] sub with
  | mk xs stop => cases stop <;> rfl

theorem foldUntil_push (vs : List ℕ) (range : List ℤ) :
    foldUntil (fun range v => (.ok (range ++ [int32Of v]) : Except String (List ℤ))) range vs =
      (range ++ vs.map int32Of, none) := by
  induction vs generalizing range with
  | nil => simp [foldUntil]
  | cons v vs ih => simp [foldUntil, ih]

theorem pushInt32s_encodes {vs : List ℕ} {sub : List UInt8} (h : EncodesNumbers vs sub) :
    pushInt32s [] sub = .ok (vs.map int32Of) := by
  obtain ⟨parts, hparts, rfl⟩ := h
  have hframe : TakesFrames pushInt32 (fun v part => IsVarint part v)
      (fun range v => .ok (range ++ [int32Of v])) := by
    intro range v part tail hpart
    rw [pushInt32, readInt32_encodes hpart]
    rfl
  unfold pushInt32s
  rw [readAll_frames pushInt32_turns hframe (fun v part hpart => hpart.groups.ne_nil) hparts,
    foldUntil_push]
  rfl

theorem applyField_toolInfo (s : ScipToolInfo) (f : Field) :
    applyField toText consumeToolInfo s f = .ok
      { name := ((f.bytesAt 1).map toText).getLastD s.name
        version := ((f.bytesAt 2).map toText).getLastD s.version
        arguments := s.arguments ++ (f.bytesAt 3).map toText } := by
  obtain ⟨number, payload⟩ := f
  rcases number with _ | _ | _ | _ | number <;> cases payload <;>
    simp [applyField, consumeToolInfo, Payload.wireType, FieldUse.apply, Field.bytesAt]

theorem applyField_symbolInformation (s : ScipSymbolInformation) (f : Field) :
    applyField toText consumeSymbolInformation s f = .ok
      { symbol := ((f.bytesAt 1).map toText).getLastD s.symbol
        documentation := s.documentation ++ (f.bytesAt 3).map toText
        kind := ((f.varintsAt 5).map int32Of).getLastD s.kind
        display_name := ((f.bytesAt 6).map toText).getLastD s.display_name } := by
  obtain ⟨number, payload⟩ := f
  rcases number with _ | _ | _ | _ | _ | _ | _ | number <;> cases payload <;>
    simp [applyField, consumeSymbolInformation, Payload.wireType, FieldUse.apply, Field.bytesAt,
      Field.varintsAt]

variable (toText) in
theorem applyField_occurrence (s : ScipOccurrence) (f : Field) :
    applyField toText consumeOccurrence s f = (fieldInt32s 1 f).bind fun range =>
      (fieldInt32s 7 f).map fun enclosing =>
        { range := s.range ++ range
          symbol := ((f.bytesAt 2).map toText).getLastD s.symbol
          symbol_roles := ((f.varintsAt 3).map int32Of).getLastD s.symbol_roles
          syntax_kind := ((f.varintsAt 5).map int32Of).getLastD s.syntax_kind
          enclosing_range := s.enclosing_range ++ enclosing } := by
  obtain ⟨number, payload⟩ := f
  rcases number with _ | _ | _ | _ | _ | _ | _ | _ | number <;> cases payload <;>
    simp [applyField, consumeOccurrence, Payload.wireType, FieldUse.apply, Field.bytesAt,
      Field.varintsAt, fieldInt32s, pushInt32s_eq s.range, pushInt32s_eq s.enclosing_range,
      Except.bind]
  · cases pushInt32s [] _ <;> rfl
  · cases pushInt32s [] _ <;> rfl

variable (toText) in
theorem applyField_metadata (s : ScipMetadata) (f : Field) :
    applyField toText (consumeMetadata toText) s f =
      (fieldDecoded 2 (decodeToolInfo toText) f).map fun infos =>
        { tool_info := infos.getLastD s.tool_info
          project_root := ((f.bytesAt 3).map toText).getLastD s.project_root
          text_document_encoding := ((f.varintsAt 4).map int32Of).getLastD s.text_document_encoding
          protocol_version := ((f.varintsAt 1).map int32Of).getLastD s.protocol_version } := by
  obtain ⟨number, payload⟩ := f
  rcases number with _ | _ | _ | _ | _ | number <;> cases payload <;>
    simp [applyField, consumeMetadata, Payload.wireType, FieldUse.apply, Field.bytesAt,
      Field.varintsAt, fieldDecoded]
  cases decodeToolInfo toText _ <;> rfl

variable (toText) in
theorem applyField_document (s : ScipDocument) (f : Field) :
    applyField toText (consumeDocument toText) s f =
      (fieldDecoded 2 (decodeOccurrence toText) f).bind fun occurrences =>
        (fieldDecoded 3 (decodeSymbolInformation toText) f).map fun symbols =>
          { s with
            relative_path := ((f.bytesAt 1).map toText).getLastD s.relative_path
            occurrences := s.occurrences ++ occurrences
            symbols := s.symbols ++ symbols
            language := ((f.bytesAt 4).map toText).getLastD s.language
            text := ((f.bytesAt 5).map toText).getLastD s.text
            position_encoding := ((f.varintsAt 6).map int32Of).getLastD s.position_encoding } := by
  obtain ⟨number, payload⟩ := f
  rcases number with _ | _ | _ | _ | _ | _ | _ | number <;> cases payload <;>
    simp [applyField, consumeDocument, Payload.wireType, FieldUse.apply, Field.bytesAt,
      Field.varintsAt, fieldDecoded, Except.bind]
  · cases decodeOccurrence toText _ <;> rfl
  · cases decodeSymbolInformation toText _ <;> rfl

/-- What an index makes of a field; it never fails. -/
def indexField (toText : List UInt8 → String) (s : ScipIndex) (f : Field) : ScipIndex :=
  { metadata := (((f.bytesAt 1).map fun sub =>
      (decodeMetadata toText sub).toOption.getD {})).getLastD s.metadata
    documents := s.documents ++ (f.bytesAt 2).map (decodeDocument toText)
    external_symbols := s.external_symbols ++ (f.bytesAt 3).flatMap fun sub =>
      (decodeSymbolInformation toText sub).toOption.toList }

theorem applyField_index (s : ScipIndex) (f : Field) :
    applyField toText (consumeIndex toText) s f = .ok (indexField toText s f) := by
  obtain ⟨number, payload⟩ := f
  rcases number with _ | _ | _ | _ | number <;> cases payload <;>
    simp [applyField, consumeIndex, Payload.wireType, FieldUse.apply, Field.bytesAt, indexField]
  · unfold setMetadata
    cases decodeMetadata toText _ <;> rfl
  · unfold pushExternalSymbol
    cases decodeSymbolInformation toText _ <;> simp [Except.toOption]

/-! ## 3. Lists of fields -/

/-- What the fields add, one after the other. -/
inductive Adds {τ β : Type*} (adds : τ → Except String (List β)) : List τ → List β → Prop
  | nil : Adds adds [] []
  | cons {t : τ} {ts : List τ} {xs ys : List β} :
      adds t = .ok xs → Adds adds ts ys → Adds adds (t :: ts) (xs ++ ys)

theorem adds_int32s {n : ℕ} {fields : List Field} {xs : List ℤ} (h : Int32sAt n fields xs) :
    Adds (fieldInt32s n) fields xs := by
  induction h with
  | nil => exact .nil
  | packed hb _ ih => exact .cons (by rw [fieldInt32s, if_pos rfl, pushInt32s_encodes hb]) ih
  | @single v fields xs _ ih =>
    have hf : fieldInt32s n ⟨n, .varint v⟩ = .ok [int32Of v] := by rw [fieldInt32s, if_pos rfl]
    exact .cons hf ih
  | @other f fields xs hbytes hvarints _ ih =>
    have hf : fieldInt32s n f = .ok [] := by
      obtain ⟨number, payload⟩ := f
      cases payload with
      | varint v =>
        have hne : number ≠ n := by
          rintro rfl
          simp [Field.varintsAt] at hvarints
        rw [fieldInt32s, if_neg hne]
      | bytes b =>
        have hne : number ≠ n := by
          rintro rfl
          simp [Field.bytesAt] at hbytes
        rw [fieldInt32s, if_neg hne]
      | fixed64 l => rfl
      | fixed32 l => rfl
    exact .cons hf ih

/-- A field either holds nothing under the number, or it is one sub-message. -/
theorem fieldDecoded_cases {β : Type*} (n : ℕ) (decode : List UInt8 → Except String β)
    (f : Field) : (f.bytesAt n = [] ∧ fieldDecoded n decode f = .ok []) ∨
      ∃ b, f.bytesAt n = [b] ∧ fieldDecoded n decode f = (decode b).map fun x => [x] := by
  obtain ⟨number, payload⟩ := f
  cases payload with
  | bytes b =>
    by_cases hn : number = n
    · exact Or.inr ⟨b, by simp [Field.bytesAt, hn], by rw [fieldDecoded, if_pos hn]⟩
    · exact Or.inl ⟨by simp [Field.bytesAt, hn], by rw [fieldDecoded, if_neg hn]⟩
  | varint v => exact Or.inl ⟨rfl, rfl⟩
  | fixed64 l => exact Or.inl ⟨rfl, rfl⟩
  | fixed32 l => exact Or.inl ⟨rfl, rfl⟩

theorem adds_decoded {β : Type*} {n : ℕ} {decode : List UInt8 → Except String β}
    {fields : List Field} {xs : List β}
    (h : List.Forall₂ (fun sub x => decode sub = .ok x) (bytesAt n fields) xs) :
    Adds (fieldDecoded n decode) fields xs := by
  induction fields generalizing xs with
  | nil =>
    cases h
    exact .nil
  | cons f fields ih =>
    rw [bytesAt_cons] at h
    rcases fieldDecoded_cases n decode f with ⟨hbytes, hf⟩ | ⟨b, hbytes, hf⟩
    · rw [hbytes, List.nil_append] at h
      exact .cons hf (ih h)
    · rw [hbytes, List.singleton_append] at h
      cases h with
      | cons hx h =>
        rw [hx, map_ok] at hf
        exact .cons hf (ih h)

theorem foldUntil_toolInfo (fields : List Field) (s : ScipToolInfo) :
    foldUntil (applyField toText consumeToolInfo) s fields =
      ({ name := (textsAt toText 1 fields).getLastD s.name
         version := (textsAt toText 2 fields).getLastD s.version
         arguments := s.arguments ++ textsAt toText 3 fields }, none) := by
  induction fields generalizing s with
  | nil => simp [foldUntil, textsAt, bytesAt]
  | cons f fields ih =>
    rw [foldUntil_cons_ok (applyField_toolInfo s f), ih]
    simp [textsAt]

theorem foldUntil_symbolInformation (fields : List Field) (s : ScipSymbolInformation) :
    foldUntil (applyField toText consumeSymbolInformation) s fields =
      ({ symbol := (textsAt toText 1 fields).getLastD s.symbol
         documentation := s.documentation ++ textsAt toText 3 fields
         kind := (int32sAt 5 fields).getLastD s.kind
         display_name := (textsAt toText 6 fields).getLastD s.display_name }, none) := by
  induction fields generalizing s with
  | nil => simp [foldUntil, textsAt, int32sAt, bytesAt, varintsAt]
  | cons f fields ih =>
    rw [foldUntil_cons_ok (applyField_symbolInformation s f), ih]
    simp [textsAt, int32sAt]

theorem foldUntil_occurrence {fields : List Field} {range enclosing : List ℤ}
    (hrange : Adds (fieldInt32s 1) fields range)
    (henclosing : Adds (fieldInt32s 7) fields enclosing) (s : ScipOccurrence) :
    foldUntil (applyField toText consumeOccurrence) s fields =
      ({ range := s.range ++ range
         symbol := (textsAt toText 2 fields).getLastD s.symbol
         symbol_roles := (int32sAt 3 fields).getLastD s.symbol_roles
         syntax_kind := (int32sAt 5 fields).getLastD s.syntax_kind
         enclosing_range := s.enclosing_range ++ enclosing }, none) := by
  induction hrange generalizing s enclosing with
  | nil =>
    cases henclosing
    simp [foldUntil, textsAt, int32sAt, bytesAt, varintsAt]
  | @cons f fields xs ys hf _ ih =>
    cases henclosing with
    | cons hf' henclosing =>
      have happly := applyField_occurrence toText s f
      rw [hf, hf'] at happly
      rw [foldUntil_cons_ok happly, ih henclosing]
      simp [textsAt, int32sAt]

theorem foldUntil_metadata {fields : List Field} {infos : List ScipToolInfo}
    (hinfos : Adds (fieldDecoded 2 (decodeToolInfo toText)) fields infos) (s : ScipMetadata) :
    foldUntil (applyField toText (consumeMetadata toText)) s fields =
      ({ tool_info := infos.getLastD s.tool_info
         project_root := (textsAt toText 3 fields).getLastD s.project_root
         text_document_encoding := (int32sAt 4 fields).getLastD s.text_document_encoding
         protocol_version := (int32sAt 1 fields).getLastD s.protocol_version }, none) := by
  induction hinfos generalizing s with
  | nil => simp [foldUntil, textsAt, int32sAt, bytesAt, varintsAt]
  | @cons f fields xs ys hf _ ih =>
    have happly := applyField_metadata toText s f
    rw [hf] at happly
    rw [foldUntil_cons_ok happly, ih]
    simp [textsAt, int32sAt]

theorem foldUntil_document {fields : List Field} {occurrences : List ScipOccurrence}
    {symbols : List ScipSymbolInformation}
    (hoccurrences : Adds (fieldDecoded 2 (decodeOccurrence toText)) fields occurrences)
    (hsymbols : Adds (fieldDecoded 3 (decodeSymbolInformation toText)) fields symbols)
    (s : ScipDocument) :
    foldUntil (applyField toText (consumeDocument toText)) s fields =
      ({ s with
         relative_path := (textsAt toText 1 fields).getLastD s.relative_path
         occurrences := s.occurrences ++ occurrences
         symbols := s.symbols ++ symbols
         language := (textsAt toText 4 fields).getLastD s.language
         text := (textsAt toText 5 fields).getLastD s.text
         position_encoding := (int32sAt 6 fields).getLastD s.position_encoding }, none) := by
  induction hoccurrences generalizing s symbols with
  | nil =>
    cases hsymbols
    simp [foldUntil, textsAt, int32sAt, bytesAt, varintsAt]
  | @cons f fields xs ys hf _ ih =>
    cases hsymbols with
    | cons hf' hsymbols =>
      have happly := applyField_document toText s f
      rw [hf, hf'] at happly
      rw [foldUntil_cons_ok happly, ih hsymbols]
      simp [textsAt, int32sAt]

/-- **What an index makes of its fields.** -/
theorem foldUntil_index (fields : List Field) (s : ScipIndex) :
    foldUntil (applyField toText (consumeIndex toText)) s fields =
      ({ metadata := ((bytesAt 1 fields).map fun sub =>
           (decodeMetadata toText sub).toOption.getD {}).getLastD s.metadata
         documents := s.documents ++ (bytesAt 2 fields).map (decodeDocument toText)
         external_symbols := s.external_symbols ++ (bytesAt 3 fields).flatMap fun sub =>
           (decodeSymbolInformation toText sub).toOption.toList }, none) := by
  induction fields generalizing s with
  | nil => simp [foldUntil, bytesAt]
  | cons f fields ih =>
    rw [foldUntil_cons_ok (applyField_index s f), ih]
    simp [indexField]

/-! ## 4. The round trip -/

theorem wellTyped_toolInfo : WellTyped consumeToolInfo := by
  intro number wireType use huse
  unfold consumeToolInfo at huse
  split at huse <;> simp at huse <;> subst huse <;> rfl

theorem wellTyped_symbolInformation : WellTyped consumeSymbolInformation := by
  intro number wireType use huse
  unfold consumeSymbolInformation at huse
  split at huse <;> simp at huse <;> subst huse <;> rfl

theorem wellTyped_occurrence : WellTyped consumeOccurrence := by
  intro number wireType use huse
  unfold consumeOccurrence at huse
  split at huse <;> simp at huse <;> subst huse <;> rfl

theorem wellTyped_metadata : WellTyped (consumeMetadata toText) := by
  intro number wireType use huse
  unfold consumeMetadata at huse
  split at huse <;> simp at huse <;> subst huse <;> rfl

theorem wellTyped_document : WellTyped (consumeDocument toText) := by
  intro number wireType use huse
  unfold consumeDocument at huse
  split at huse <;> simp at huse <;> subst huse <;> rfl

theorem wellTyped_index : WellTyped (consumeIndex toText) := by
  intro number wireType use huse
  unfold consumeIndex at huse
  split at huse <;> simp at huse <;> subst huse <;> rfl

theorem decodeFields_eq_ok {σ : Type*} {consume : FieldConsumer σ} (h : WellTyped consume)
    {fields : List Field} {l : List UInt8} (hl : Encodes fields l) {out out' : σ}
    (hfold : foldUntil (applyField toText consume) out fields = (out', none)) :
    decodeFields toText consume out l = .ok out' := by
  unfold decodeFields
  rw [readAllFields_encodes h hl, hfold]

theorem decodeToolInfo_eq_ok {l : List UInt8} {info : ScipToolInfo}
    (h : IsToolInfo toText l info) : decodeToolInfo toText l = .ok info := by
  obtain ⟨fields, hl, hname, hversion, harguments⟩ := h
  obtain ⟨name, version, arguments⟩ := info
  obtain rfl : name = _ := hname
  obtain rfl : version = _ := hversion
  obtain rfl : arguments = _ := harguments
  exact decodeFields_eq_ok wellTyped_toolInfo hl (foldUntil_toolInfo fields {})

theorem decodeSymbolInformation_eq_ok {l : List UInt8} {info : ScipSymbolInformation}
    (h : IsSymbolInformation toText l info) : decodeSymbolInformation toText l = .ok info := by
  obtain ⟨fields, hl, hsymbol, hdocumentation, hkind, hname⟩ := h
  obtain ⟨symbol, documentation, kind, display_name⟩ := info
  obtain rfl : symbol = _ := hsymbol
  obtain rfl : documentation = _ := hdocumentation
  obtain rfl : kind = _ := hkind
  obtain rfl : display_name = _ := hname
  exact decodeFields_eq_ok wellTyped_symbolInformation hl (foldUntil_symbolInformation fields {})

theorem decodeOccurrence_eq_ok {l : List UInt8} {occurrence : ScipOccurrence}
    (h : IsOccurrence toText l occurrence) : decodeOccurrence toText l = .ok occurrence := by
  obtain ⟨fields, hl, hrange, hsymbol, hroles, hkind, henclosing⟩ := h
  obtain ⟨range, symbol, symbol_roles, syntax_kind, enclosing_range⟩ := occurrence
  obtain rfl : symbol = _ := hsymbol
  obtain rfl : symbol_roles = _ := hroles
  obtain rfl : syntax_kind = _ := hkind
  exact decodeFields_eq_ok wellTyped_occurrence hl
    (foldUntil_occurrence (adds_int32s hrange) (adds_int32s henclosing) {})

/-- A message that is there at most once is decoded as the last of the list it is in. -/
theorem AtMostOnce.decoded {β : Type*} {Is : List UInt8 → β → Prop}
    {decode : List UInt8 → Except String β} {empty b : β} {subs : List (List UInt8)}
    (h : AtMostOnce Is empty subs b) (hdecode : ∀ sub b, Is sub b → decode sub = .ok b) :
    ∃ bs, List.Forall₂ (fun sub b => decode sub = .ok b) subs bs ∧ bs.getLastD empty = b := by
  rcases h with ⟨rfl, rfl⟩ | ⟨sub, rfl, hsub⟩
  · exact ⟨[], .nil, rfl⟩
  · exact ⟨[b], .cons (hdecode sub b hsub) .nil, rfl⟩

theorem decodeMetadata_eq_ok {l : List UInt8} {metadata : ScipMetadata}
    (h : IsMetadata toText l metadata) : decodeMetadata toText l = .ok metadata := by
  obtain ⟨fields, hl, hversion, hinfo, hroot, hencoding⟩ := h
  obtain ⟨infos, hinfos, hlast⟩ := hinfo.decoded fun _ _ => decodeToolInfo_eq_ok
  obtain ⟨tool_info, project_root, text_document_encoding, protocol_version⟩ := metadata
  obtain rfl : protocol_version = _ := hversion
  obtain rfl : project_root = _ := hroot
  obtain rfl : text_document_encoding = _ := hencoding
  obtain rfl : _ = tool_info := hlast
  exact decodeFields_eq_ok wellTyped_metadata hl (foldUntil_metadata (adds_decoded hinfos) {})

theorem decodeDocument_eq {l : List UInt8} {doc : ScipDocument} (h : IsDocument toText l doc) :
    decodeDocument toText l = doc := by
  obtain ⟨fields, hl, hpath, hoccurrences, hsymbols, hlanguage, htext, hencoding, hreason,
    hmessage⟩ := h
  obtain ⟨language, relative_path, occurrences, symbols, text, position_encoding,
    atlas_skip_reason, atlas_skip_message⟩ := doc
  obtain rfl : relative_path = _ := hpath
  obtain rfl : language = _ := hlanguage
  obtain rfl : text = _ := htext
  obtain rfl : position_encoding = _ := hencoding
  obtain rfl : atlas_skip_reason = _ := hreason
  obtain rfl : atlas_skip_message = _ := hmessage
  have hfold := foldUntil_document
    (adds_decoded (hoccurrences.imp fun _ _ => decodeOccurrence_eq_ok))
    (adds_decoded (hsymbols.imp fun _ _ => decodeSymbolInformation_eq_ok)) {}
  unfold decodeDocument
  rw [readAllFields_encodes wellTyped_document hl, hfold]
  rfl

theorem map_eq_of_forall₂ {α β : Type*} {R : α → β → Prop} {f : α → β} {as : List α} {bs : List β}
    (h : List.Forall₂ R as bs) (hf : ∀ a b, R a b → f a = b) : as.map f = bs := by
  rw [← List.forall₂_eq_eq_eq, List.forall₂_map_left_iff]
  exact h.imp fun _ _ => hf _ _

theorem flatMap_eq_of_forall₂ {α β : Type*} {R : α → β → Prop} {f : α → List β} {as : List α}
    {bs : List β} (h : List.Forall₂ R as bs) (hf : ∀ a b, R a b → f a = [b]) :
    as.flatMap f = bs := by
  induction h with
  | nil => rfl
  | cons hab _ ih => rw [List.flatMap_cons, hf _ _ hab, ih, List.singleton_append]

/-- **Whatever encodes an index is decoded as it.** -/
theorem decodeScipIndex_of_isScipIndex {bytes : List UInt8} {idx : ScipIndex}
    (h : IsScipIndex toText bytes idx) : decodeScipIndex toText bytes = .ok idx := by
  obtain ⟨fields, hl, hmetadata, hdocuments, hexternal⟩ := h
  obtain ⟨metadatas, hmetadatas, hlast⟩ := hmetadata.decoded fun _ _ => decodeMetadata_eq_ok
  rw [decodeScipIndex_eq_ok, readAllFields_encodes wellTyped_index hl, foldUntil_index]
  rw [map_eq_of_forall₂ hmetadatas fun sub metadata hsub => by rw [hsub]; rfl,
    map_eq_of_forall₂ hdocuments fun sub doc => decodeDocument_eq,
    flatMap_eq_of_forall₂ hexternal fun sub info hsub => by
      rw [decodeSymbolInformation_eq_ok hsub]; rfl, hlast]
  rfl

/-- The text of ASCII bytes. -/
def asciiText (l : List UInt8) : String := String.ofList (l.map fun b => Char.ofNat b.toNat)

/-- A negative number, a range that is packed in part, and a field that nobody knows. -/
def occurrenceFields : List Field :=
  [⟨3, .varint (signExtended (-1))⟩, ⟨1, .bytes [5, 6]⟩, ⟨9, .fixed32 [1, 2, 3, 4]⟩,
    ⟨1, .varint 300⟩, ⟨2, .bytes [120]⟩]

theorem isOccurrence_occurrenceFields : IsOccurrence asciiText (messageBytes occurrenceFields)
    { range := [5, 6, 300], symbol := "x", symbol_roles := -1 } := by
  have hpacked : EncodesNumbers [5, 6] ([5, 6].flatMap varintOf) :=
    encodesNumbers_flatMap (by decide)
  refine ⟨occurrenceFields, encodes_messageBytes (by decide), ?_, by decide, by decide, by decide,
    ?_⟩
  · exact .other rfl rfl (.packed hpacked (.other rfl rfl (.single (.other rfl rfl .nil))))
  · exact .other rfl rfl (.other rfl rfl (.other rfl rfl (.other rfl rfl (.other rfl rfl .nil))))

theorem decodeScipIndex_one_document :
    decodeScipIndex asciiText (messageBytes [⟨2, .bytes (messageBytes
      [⟨2, .bytes (messageBytes occurrenceFields)⟩, ⟨1, .bytes [97]⟩])⟩]) =
      .ok { documents := [{ relative_path := "a", occurrences :=
        [{ range := [5, 6, 300], symbol := "x", symbol_roles := -1 }] }] } :=
  decodeScipIndex_of_isScipIndex ⟨_, encodes_messageBytes (by decide), .inl ⟨rfl, rfl⟩,
    .cons ⟨_, encodes_messageBytes (by decide), by decide,
      .cons isOccurrence_occurrenceFields .nil, .nil, by decide, by decide, by decide, rfl, rfl⟩
      .nil, .nil⟩

/-! ## 5. Files that are cut off -/

/-- **An encoding that is cut off anywhere** is decoded as the fields whose frames are whole: those
documents, in order, and nothing of the one that is torn. -/
theorem decodeScipIndex_take {fields : List Field} {parts : List (List UInt8)}
    (hparts : List.Forall₂ EncodesField fields parts) (k : ℕ) :
    ∃ idx, decodeScipIndex toText (parts.flatten.take k) = .ok idx ∧
      decodeScipIndex toText (parts.take (partsWithin parts k)).flatten = .ok idx ∧
      idx.documents =
        (bytesAt 2 (fields.take (partsWithin parts k))).map (decodeDocument toText) := by
  have hcut : (readAllFields toText (consumeIndex toText) {} (parts.flatten.take k)).1 =
      (foldUntil (applyField toText (consumeIndex toText)) {}
        (fields.take (partsWithin parts k))).1 :=
    readAll_frames_take (fieldTurn_turns _) (fieldTurn_takesFrames wellTyped_index)
      (fun s f => ⟨_, applyField_index s f⟩) hparts k {}
  have hwhole : Encodes (fields.take (partsWithin parts k))
      (parts.take (partsWithin parts k)).flatten := ⟨_, List.forall₂_take _ hparts, rfl⟩
  refine ⟨_, decodeScipIndex_eq_ok _, ?_, ?_⟩
  · rw [decodeScipIndex_eq_ok, hcut, readAllFields_encodes wellTyped_index hwhole]
  · rw [hcut, foldUntil_index]
    rfl

/-- Two documents, cut off inside the second. -/
theorem decodeScipIndex_take_two :
    ∃ idx, decodeScipIndex asciiText
        (([⟨2, .bytes [10, 1, 97]⟩, ⟨2, .bytes [10, 1, 98]⟩].map fieldBytes).flatten.take 8) =
        .ok idx ∧
      decodeScipIndex asciiText (([⟨2, .bytes [10, 1, 97]⟩].map fieldBytes).flatten) = .ok idx ∧
      idx.documents = [decodeDocument asciiText [10, 1, 97]] :=
  decodeScipIndex_take (.cons (encodesField_fieldBytes (f := ⟨2, .bytes [10, 1, 97]⟩) (by decide))
    (.cons (encodesField_fieldBytes (f := ⟨2, .bytes [10, 1, 98]⟩) (by decide)) .nil)) 8

end PosseClient
