/-
# `proto-reader.js`: the reader of protobuf messages

A reader is a position before a limit; here it is the bytes between the two.  `readAllFields` reads
tags to the end and gives every field to a consumer, which takes it with a reader of its own or
leaves it to be skipped.

* `readVarintRaw_encodes`: every encoding of a number is read as that number.
* `fieldTurn_turns`: a turn of `readAllFields` is local, so that what follows a field never
  matters to it.
* `readAllFields_encodes`: over the bytes of a message it is a fold over the message's fields.
* `readAllFields_error`: whatever ends it early is an error of the reader.
-/
import PosseClient.Lib.WireFormat

namespace PosseClient

open Readers WireFormat

/-- What is read off the bytes before `limit`, and the bytes that are left. -/
abbrev ProtoReader (β : Type*) := List UInt8 → Except String (β × List UInt8)

/-! ## 1. `readVarintRaw` -/

/-- The `do … while` of `readVarintRaw`. -/
def readVarintLoop (result shift : ℕ) : ProtoReader ℕ
  | [] => .error "proto-reader: unexpected end of input in varint"
  | byte :: rest =>
    let result := result ||| (byte &&& 0x7f).toNat <<< shift
    let shift := shift + 7
    if byte &&& 0x80 ≠ 0 ∧ 70 ≤ shift then .error "proto-reader: varint too long"
    else if byte &&& 0x80 ≠ 0 then readVarintLoop result shift rest
    else .ok (result, rest)

def readVarintRaw : ProtoReader ℕ := readVarintLoop 0 0

theorem and_seven_bits (b : UInt8) : (b &&& 0x7f).toNat = b.toNat % 128 := by
  rw [UInt8.toNat_and]
  exact Nat.and_two_pow_sub_one_eq_mod b.toNat 7

theorem continuation_bit (b : UInt8) : b &&& 0x80 ≠ 0 ↔ 128 ≤ b.toNat := by
  have hbytes : ∀ i : Fin 256, i.val &&& 128 = i.val / 128 * 128 := by decide +kernel
  have hand : (b &&& 0x80).toNat = b.toNat / 128 * 128 := by
    rw [UInt8.toNat_and]
    exact hbytes ⟨b.toNat, b.toNat_lt⟩
  rw [ne_eq, ← UInt8.toNat_inj, hand]
  have := b.toNat_lt
  simp only [UInt8.toNat_ofNat, Nat.zero_mod]
  omega

/-- A group is put above the bits that are already there. -/
theorem or_shifted {result shift x : ℕ} (h : result < 2 ^ shift) :
    result ||| x <<< shift = result + x * 2 ^ shift := by
  rw [Nat.shiftLeft_eq, Nat.or_comm, mul_comm, ← Nat.two_pow_add_eq_or_of_lt h]
  omega

/-- **What the loop reads**: the groups of a number above what it has, as many as fit. -/
theorem readVarintLoop_ok_iff {result shift : ℕ} (hresult : result < 2 ^ shift)
    {l rest : List UInt8} {v : ℕ} :
    readVarintLoop result shift l = .ok (v, rest) ↔
      ∃ used w, Groups used w ∧ l = used ++ rest ∧ v = result + w * 2 ^ shift ∧
        (used.length = 1 ∨ shift + 7 * (used.length - 1) < 70) := by
  induction l generalizing result shift with
  | nil =>
    refine ⟨(fun h => nomatch h), ?_⟩
    rintro ⟨used, w, hgroups, hnil, -⟩
    exact absurd (List.append_eq_nil_iff.mp hnil.symm).1 hgroups.ne_nil
  | cons b l ih =>
    rw [readVarintLoop]
    simp only [and_seven_bits, continuation_bit, or_shifted hresult]
    have hb := b.toNat_lt
    by_cases hmore : 128 ≤ b.toNat
    case neg =>
      rw [if_neg (fun h => hmore h.1), if_neg hmore]
      constructor
      · intro h
        obtain ⟨rfl, rfl⟩ := Prod.mk.inj (Except.ok.inj h)
        refine ⟨[b], b.toNat, .last (by omega), rfl, ?_, .inl rfl⟩
        rw [Nat.mod_eq_of_lt (by omega)]
      · rintro ⟨used, w, hgroups, hl, rfl, -⟩
        cases hgroups with
        | last hlt =>
          obtain ⟨rfl, rfl⟩ := List.cons.inj hl
          rw [Nat.mod_eq_of_lt (by omega)]
        | more hge _ =>
          obtain ⟨rfl, -⟩ := List.cons.inj hl
          exact absurd hge hmore
    case pos =>
      have hnext : result + b.toNat % 128 * 2 ^ shift < 2 ^ (shift + 7) := by
        have hmod : b.toNat % 128 < 128 := Nat.mod_lt _ (by decide)
        rw [pow_add]
        nlinarith
      have hgrow : ∀ w, result + b.toNat % 128 * 2 ^ shift + w * 2 ^ (shift + 7) =
          result + (b.toNat % 128 + 128 * w) * 2 ^ shift := by
        intro w
        rw [pow_add]
        ring
      by_cases hlong : 70 ≤ shift + 7
      case pos =>
        rw [if_pos ⟨hmore, hlong⟩]
        refine ⟨(fun h => nomatch h), ?_⟩
        rintro ⟨used, w, hgroups, hl, -, hlen⟩
        cases hgroups with
        | last hlt =>
          obtain ⟨rfl, -⟩ := List.cons.inj hl
          omega
        | more _ htail =>
          have := List.length_pos_of_ne_nil htail.ne_nil
          simp only [List.length_cons] at hlen
          omega
      case neg =>
        rw [if_neg (fun h => hlong h.2), if_pos hmore, ih hnext]
        constructor
        · rintro ⟨used, w, hgroups, rfl, rfl, hlen⟩
          refine ⟨b :: used, _, .more hmore hgroups, rfl, hgrow w, .inr ?_⟩
          have := List.length_pos_of_ne_nil hgroups.ne_nil
          simp only [List.length_cons]
          omega
        · rintro ⟨used, w, hgroups, hl, rfl, hlen⟩
          cases hgroups with
          | last hlt =>
            obtain ⟨rfl, -⟩ := List.cons.inj hl
            omega
          | @more _ tail w' _ htail =>
            obtain ⟨rfl, rfl⟩ := List.cons.inj hl
            have := List.length_pos_of_ne_nil htail.ne_nil
            refine ⟨tail, w', htail, rfl, (hgrow w').symm, ?_⟩
            simp only [List.length_cons] at hlen
            omega

/-- **What `readVarintRaw` reads**: the encodings of a number, ten bytes at most. -/
theorem readVarintRaw_ok_iff {l rest : List UInt8} {v : ℕ} :
    readVarintRaw l = .ok (v, rest) ↔ ∃ used, IsVarint used v ∧ l = used ++ rest := by
  rw [readVarintRaw, readVarintLoop_ok_iff (by simp)]
  constructor
  · rintro ⟨used, w, hgroups, rfl, hv, hlen⟩
    obtain rfl : v = w := by simpa using hv
    exact ⟨used, ⟨hgroups, by omega⟩, rfl⟩
  · rintro ⟨used, ⟨hgroups, hlen⟩, rfl⟩
    have := List.length_pos_of_ne_nil hgroups.ne_nil
    exact ⟨used, v, hgroups, rfl, by simp, by omega⟩

theorem readVarintRaw_encodes {enc : List UInt8} {v : ℕ} (h : IsVarint enc v)
    (tail : List UInt8) : readVarintRaw (enc ++ tail) = .ok (v, tail) :=
  readVarintRaw_ok_iff.mpr ⟨enc, h, rfl⟩

theorem readVarintRaw_turns : Turns readVarintRaw where
  isLocal := by
    intro l v rest hread
    obtain ⟨used, hused, rfl⟩ := readVarintRaw_ok_iff.mp hread
    exact ⟨used, rfl, readVarintRaw_encodes hused⟩
  length_lt := by
    intro l v rest hread
    obtain ⟨used, hused, rfl⟩ := readVarintRaw_ok_iff.mp hread
    have := List.length_pos_of_ne_nil hused.groups.ne_nil
    simp only [List.length_append]
    omega

/-! ## 2. The other readers -/

/-- `readTag`: the field's number and its wire type. -/
def readTag : ProtoReader (ℕ × ℕ) :=
  fun l => (readVarintRaw l).map fun found => ((found.1 >>> 3, found.1 &&& 0x7), found.2)

/-- `int32` is sign-extended to 64 bits on the wire: `readInt32` casts it back. -/
def castInt32 (v : ℕ) : ℤ :=
  let masked : ℕ := v &&& 0xffffffff
  if masked &&& 0x80000000 ≠ 0 then (masked : ℤ) - 0x100000000 else masked

def readInt32 : ProtoReader ℤ :=
  fun l => (readVarintRaw l).map fun found => (castInt32 found.1, found.2)

/-- A length, and as many bytes, which must lie before the limit. -/
def readSized (overflow : String) : ProtoReader (List UInt8) :=
  andThen readVarintRaw fun len l =>
    if l.length < len then .error overflow else .ok (l.take len, l.drop len)

/-- `readString`; `toText` is the decoding of `utf8` by the buffer. -/
def readString (toText : List UInt8 → String) : ProtoReader String :=
  fun l => (readSized "proto-reader: string overflows buffer" l).map fun found =>
    (toText found.1, found.2)

/-- `readSubMessage`: the bytes of the reader that it returns. -/
def readSubMessage : ProtoReader (List UInt8) :=
  readSized "proto-reader: sub-message overflows buffer"

def skipFixed (size : ℕ) (overflow : String) : ProtoReader Unit :=
  fun l => if l.length < size then .error overflow else .ok ((), l.drop size)

def skipField (wireType : ℕ) : ProtoReader Unit :=
  match wireType with
  | 0 => fun l => (readVarintRaw l).map fun found => ((), found.2)
  | 1 => skipFixed 8 "proto-reader: fixed64 overflows buffer"
  | 2 => fun l =>
    (readSized "proto-reader: length-delimited field overflows buffer" l).map fun found =>
      ((), found.2)
  | 5 => skipFixed 4 "proto-reader: fixed32 overflows buffer"
  | _ => fun _ => .error s!"proto-reader: unsupported wire type {wireType}"

theorem readTag_turns : Turns readTag := readVarintRaw_turns.map fun v => (v >>> 3, v &&& 0x7)

theorem readTag_encodes {f : Field} {tag : List UInt8} (h : IsVarint tag f.tag)
    (tail : List UInt8) :
    readTag (tag ++ tail) = .ok ((f.number, f.payload.wireType), tail) := by
  have htype := f.payload.wireType_lt
  unfold readTag
  rw [readVarintRaw_encodes h]
  simp only [Except.map, Field.tag, Nat.shiftRight_eq_div_pow]
  rw [show (0x7 : ℕ) = 2 ^ 3 - 1 from rfl, Nat.and_two_pow_sub_one_eq_mod,
    show (f.number * 8 + f.payload.wireType) / 2 ^ 3 = f.number by omega,
    show (f.number * 8 + f.payload.wireType) % 2 ^ 3 = f.payload.wireType by omega]

theorem readInt32_turns : Turns readInt32 := readVarintRaw_turns.map castInt32

/-- The sign bit of the lowest 32. -/
theorem sign_bit {m : ℕ} (h : m < 2 ^ 32) : m &&& 0x80000000 ≠ 0 ↔ 2 ^ 31 ≤ m := by
  have hbit : m &&& 0x80000000 = (m.testBit 31).toNat * 2 ^ 31 := Nat.and_two_pow m 31
  have hdiv : m / 2 ^ 31 < 2 := by omega
  rw [hbit, Nat.testBit_eq_decide_div_mod_eq, Nat.mod_eq_of_lt hdiv]
  by_cases hone : m / 2 ^ 31 = 1
  · simp only [hone, decide_true, Bool.toNat_true]
    omega
  · simp only [hone, decide_false, Bool.toNat_false]
    omega

theorem castInt32_eq (v : ℕ) : castInt32 v = int32Of v := by
  have hmask : v &&& 0xffffffff = v % 2 ^ 32 := Nat.and_two_pow_sub_one_eq_mod v 32
  have hlt : v % 2 ^ 32 < 2 ^ 32 := Nat.mod_lt _ (by decide)
  simp only [castInt32, int32Of, hmask, sign_bit hlt]
  by_cases hsign : 2 ^ 31 ≤ v % 2 ^ 32
  · rw [if_pos hsign, if_neg (by omega)]
    norm_num
  · rw [if_neg hsign, if_pos (by omega)]

theorem readInt32_encodes {enc : List UInt8} {v : ℕ} (h : IsVarint enc v)
    (tail : List UInt8) : readInt32 (enc ++ tail) = .ok (int32Of v, tail) := by
  unfold readInt32
  rw [readVarintRaw_encodes h, ← castInt32_eq]
  rfl

theorem readSized_local (overflow : String) : Local (readSized overflow) := by
  refine readVarintRaw_turns.isLocal.andThen fun len l found rest hread => ?_
  split at hread
  case isTrue => cases hread
  case isFalse hlen =>
    obtain ⟨rfl, rfl⟩ := Prod.mk.inj (Except.ok.inj hread)
    refine ⟨l.take len, (List.take_append_drop len l).symm, fun tail => ?_⟩
    have hsize : (l.take len).length = len := by simp; omega
    rw [if_neg (by simp; omega), List.take_left' hsize, List.drop_left' hsize]

theorem readSized_encodes (overflow : String) {size b : List UInt8} (h : IsVarint size b.length)
    (tail : List UInt8) : readSized overflow (size ++ b ++ tail) = .ok (b, tail) := by
  unfold readSized
  rw [List.append_assoc, andThen_ok (readVarintRaw_encodes h _), if_neg (by simp),
    List.take_left, List.drop_left]

theorem skipFixed_local (size : ℕ) (overflow : String) : Local (skipFixed size overflow) := by
  intro l found rest hread
  unfold skipFixed at hread
  split at hread
  case isTrue => cases hread
  case isFalse hlen =>
    obtain ⟨-, rfl⟩ := Prod.mk.inj (Except.ok.inj hread)
    refine ⟨l.take size, (List.take_append_drop size l).symm, fun tail => ?_⟩
    have hsize : (l.take size).length = size := by simp; omega
    unfold skipFixed
    rw [if_neg (by simp; omega), List.drop_left' hsize]

theorem skipField_local (wireType : ℕ) : Local (skipField wireType) := by
  unfold skipField
  split
  · exact readVarintRaw_turns.isLocal.map fun _ => ()
  · exact skipFixed_local 8 _
  · exact (readSized_local _).map fun _ => ()
  · exact skipFixed_local 4 _
  · exact fun l found rest hread => nomatch hread

theorem skipField_encodes {p : Payload} {enc : List UInt8} (h : EncodesPayload p enc)
    (tail : List UInt8) : skipField p.wireType (enc ++ tail) = .ok ((), tail) := by
  cases h with
  | varint hv =>
    simp only [Payload.wireType, skipField, readVarintRaw_encodes hv]
    rfl
  | fixed64 hl => simp [Payload.wireType, skipField, skipFixed, hl, List.drop_left' hl]
  | bytes hsize =>
    simp only [Payload.wireType, skipField, readSized_encodes _ hsize]
    rfl
  | fixed32 hl => simp [Payload.wireType, skipField, skipFixed, hl, List.drop_left' hl]

/-! ## 3. `readAllFields` -/

variable {σ : Type*} (toText : List UInt8 → String)

/-- What a consumer does with a field it handles: the reader that takes the payload, and what it
makes of the value.  A sub-message is handed on as its bytes. -/
inductive FieldUse (σ : Type*) where
  | int32 (use : σ → ℤ → σ)
  | string (use : σ → String → σ)
  | message (use : σ → List UInt8 → Except String σ)

/-- The wire type that a reader is for. -/
def FieldUse.wireType : FieldUse σ → ℕ
  | .int32 _ => 0
  | .string _ => 2
  | .message _ => 2

def FieldUse.read (s : σ) : FieldUse σ → ProtoReader σ
  | .int32 use => fun l => (readInt32 l).map fun found => (use s found.1, found.2)
  | .string use => fun l => (readString toText l).map fun found => (use s found.1, found.2)
  | .message use => fun l =>
    match readSubMessage l with
    | .error err => .error err
    | .ok (sub, rest) => (use s sub).map fun s' => (s', rest)

/-- `consume`, by field number and wire type: `none` is its `return false`. -/
abbrev FieldConsumer (σ : Type*) := ℕ → ℕ → Option (FieldUse σ)

/-- One turn of `readAllFields`. -/
def fieldTurn (consume : FieldConsumer σ) (s : σ) : ProtoReader σ :=
  andThen readTag fun tag =>
    match consume tag.1 tag.2 with
    | some use => use.read toText s
    | none => fun l => (skipField tag.2 l).map fun found => (s, found.2)

/-- `readAllFields`: what the consumer has made of the fields, and what has ended them early. -/
def readAllFields (consume : FieldConsumer σ) (s : σ) (l : List UInt8) : σ × Option String :=
  readAll (fieldTurn toText consume) s l

variable {toText} {consume : FieldConsumer σ}

theorem FieldUse.read_local (use : FieldUse σ) (s : σ) : Local (use.read toText s) := by
  cases use with
  | int32 use => exact readInt32_turns.isLocal.map (use s)
  | string use => exact ((readSized_local _).map toText).map (use s)
  | message use =>
    intro l s' rest hread
    unfold FieldUse.read at hread
    cases hsub : readSubMessage l with
    | error err =>
      simp only [hsub] at hread
      cases hread
    | ok found =>
      obtain ⟨sub, after⟩ := found
      simp only [hsub] at hread
      obtain ⟨used, rfl, hused⟩ := readSized_local _ l sub after hsub
      cases huse : use s sub with
      | error err =>
        rw [huse] at hread
        cases hread
      | ok s'' =>
        rw [huse] at hread
        obtain ⟨rfl, rfl⟩ := Prod.mk.inj (Except.ok.inj hread)
        refine ⟨used, rfl, fun tail => ?_⟩
        have hsub' : readSubMessage (used ++ tail) = .ok (sub, tail) := hused tail
        simp only [FieldUse.read, hsub', huse]
        rfl

/-- A sub-message takes what is skipped in its place. -/
theorem readSubMessage_of_skip {l rest : List UInt8} (h : skipField 2 l = .ok ((), rest)) :
    ∃ sub, readSubMessage l = .ok (sub, rest) := by
  simp only [skipField, readSized, andThen, readSubMessage] at h ⊢
  cases hlen : readVarintRaw l with
  | error err =>
    rw [hlen] at h
    cases h
  | ok found =>
    obtain ⟨len, after⟩ := found
    simp only [hlen] at h ⊢
    split at h
    case isTrue => cases h
    case isFalse hle =>
      obtain ⟨-, rfl⟩ := Prod.mk.inj (Except.ok.inj h)
      rw [if_neg hle]
      exact ⟨_, rfl⟩

theorem FieldUse.read_message {use : σ → List UInt8 → Except String σ} {s : σ}
    {l sub rest : List UInt8} (h : readSubMessage l = .ok (sub, rest)) :
    (FieldUse.message use).read toText s l = (use s sub).map fun s' => (s', rest) := by
  simp only [FieldUse.read, h]

theorem FieldUse.read_message_eq_ok {use : σ → List UInt8 → Except String σ} {s s' : σ}
    {l rest : List UInt8} (h : (FieldUse.message use).read toText s l = .ok (s', rest)) :
    ∃ sub, use s sub = .ok s' := by
  cases hsub : readSubMessage l with
  | error err =>
    simp only [FieldUse.read, hsub] at h
    cases h
  | ok found =>
    rw [FieldUse.read_message hsub] at h
    cases huse : use s found.1 with
    | error err =>
      rw [huse] at h
      cases h
    | ok s'' =>
      rw [huse] at h
      obtain ⟨rfl, -⟩ := Prod.mk.inj (Except.ok.inj h)
      exact ⟨found.1, huse⟩

theorem fieldTurn_turns (consume : FieldConsumer σ) (s : σ) :
    Turns (fieldTurn toText consume s) := by
  refine readTag_turns.andThen fun tag => ?_
  split
  · exact FieldUse.read_local _ s
  · exact (skipField_local tag.2).map fun _ => s

/-! ### Over the bytes of a message -/

variable (toText) in
/-- What a reader makes of a payload of its wire type. -/
def FieldUse.apply (s : σ) : FieldUse σ → Payload → Except String σ
  | .int32 use, .varint v => .ok (use s (int32Of v))
  | .string use, .bytes b => .ok (use s (toText b))
  | .message use, .bytes b => use s b
  | _, _ => .ok s

variable (toText) in
/-- What a consumer makes of a field. -/
def applyField (consume : FieldConsumer σ) (s : σ) (f : Field) : Except String σ :=
  match consume f.number f.payload.wireType with
  | some use => use.apply toText s f.payload
  | none => .ok s

/-- A consumer that takes every payload with a reader for its wire type. -/
def WellTyped (consume : FieldConsumer σ) : Prop :=
  ∀ number wireType use, consume number wireType = some use → use.wireType = wireType

theorem FieldUse.read_encodes {use : FieldUse σ} {p : Payload} (htype : use.wireType = p.wireType)
    {enc : List UInt8} (h : EncodesPayload p enc) (s : σ) (tail : List UInt8) :
    use.read toText s (enc ++ tail) = (use.apply toText s p).map fun s' => (s', tail) := by
  cases h with
  | varint hv =>
    cases use with
    | int32 use =>
      simp only [FieldUse.read, readInt32_encodes hv]
      rfl
    | string use => cases htype
    | message use => cases htype
  | fixed64 hl => cases use <;> cases htype
  | bytes hsize =>
    cases use with
    | int32 use => cases htype
    | string use =>
      simp only [FieldUse.read, readString, readSized_encodes _ hsize]
      rfl
    | message use =>
      simp only [FieldUse.read, readSubMessage, readSized_encodes _ hsize]
      rfl
  | fixed32 hl => cases use <;> cases htype

theorem fieldTurn_takesFrames (h : WellTyped consume) :
    TakesFrames (fieldTurn toText consume) EncodesField (applyField toText consume) := by
  rintro s f part tail ⟨tag, payload, htag, hpayload, rfl⟩
  unfold fieldTurn
  rw [List.append_assoc, andThen_ok (readTag_encodes htag _)]
  unfold applyField
  cases huse : consume f.number f.payload.wireType with
  | some use => exact FieldUse.read_encodes (h _ _ _ huse) hpayload s tail
  | none =>
    simp only [skipField_encodes hpayload tail]
    rfl

/-- **Over the bytes of a message** `readAllFields` is a fold over its fields. -/
theorem readAllFields_encodes (h : WellTyped consume) {fields : List Field} {l : List UInt8}
    (hl : Encodes fields l) (s : σ) :
    readAllFields toText consume s l = foldUntil (applyField toText consume) s fields := by
  obtain ⟨parts, hparts, rfl⟩ := hl
  exact readAll_frames (fieldTurn_turns consume) (fieldTurn_takesFrames h)
    (fun f part hpart => hpart.ne_nil) hparts s

/-! ### Errors -/

/-- An error of the reader, by its message. -/
def ProtoError (err : String) : Prop := "proto-reader:".toList <+: err.toList

instance (err : String) : Decidable (ProtoError err) := by
  unfold ProtoError
  infer_instance

/-- A reader whose errors are errors of the reader. -/
def RaisesProto {β : Type*} (read : ProtoReader β) : Prop :=
  ∀ l err, read l = .error err → ProtoError err

theorem RaisesProto.map {β γ : Type*} {read : ProtoReader β} (h : RaisesProto read) (f : β → γ) :
    RaisesProto (fun l => (read l).map fun found => (f found.1, found.2)) := by
  intro l err herr
  cases hread : read l with
  | error err' =>
    simp only [hread] at herr
    obtain rfl : err' = err := Except.error.inj herr
    exact h l _ hread
  | ok found =>
    simp only [hread] at herr
    cases herr

theorem RaisesProto.andThen {β γ : Type*} {read : ProtoReader β} {next : β → ProtoReader γ}
    (h : RaisesProto read) (hnext : ∀ b, RaisesProto (next b)) :
    RaisesProto (andThen read next) := by
  intro l err herr
  unfold Readers.andThen at herr
  cases hread : read l with
  | error err' =>
    rw [hread] at herr
    obtain rfl : err' = err := Except.error.inj herr
    exact h l _ hread
  | ok found =>
    rw [hread] at herr
    exact hnext _ _ err herr

theorem readVarintLoop_raises (result shift : ℕ) : RaisesProto (readVarintLoop result shift) := by
  intro l
  induction l generalizing result shift with
  | nil =>
    intro err herr
    obtain rfl := Except.error.inj herr
    decide
  | cons b l ih =>
    intro err herr
    rw [readVarintLoop] at herr
    split at herr
    case isTrue =>
      obtain rfl := Except.error.inj herr
      decide
    case isFalse =>
      split at herr
      case isTrue => exact ih _ _ err herr
      case isFalse => cases herr

theorem readVarintRaw_raises : RaisesProto readVarintRaw := readVarintLoop_raises 0 0

theorem readSized_raises {overflow : String} (h : ProtoError overflow) :
    RaisesProto (readSized overflow) := by
  refine readVarintRaw_raises.andThen fun len l err herr => ?_
  split at herr
  case isTrue =>
    obtain rfl := Except.error.inj herr
    exact h
  case isFalse => cases herr

theorem skipFixed_raises {size : ℕ} {overflow : String} (h : ProtoError overflow) :
    RaisesProto (skipFixed size overflow) := by
  intro l err herr
  unfold skipFixed at herr
  split at herr
  case isTrue =>
    obtain rfl := Except.error.inj herr
    exact h
  case isFalse => cases herr

theorem skipField_raises (wireType : ℕ) : RaisesProto (skipField wireType) := by
  unfold skipField
  split
  · exact readVarintRaw_raises.map fun _ => ()
  · exact skipFixed_raises (by decide)
  · exact (readSized_raises (by decide)).map fun _ => ()
  · exact skipFixed_raises (by decide)
  · intro l err herr
    obtain rfl := Except.error.inj herr
    refine ⟨" unsupported wire type ".toList ++ (toString wireType).toList, ?_⟩
    rw [String.toList_append]
    rfl

/-- A consumer whose own decoders raise errors of the reader only. -/
def ConsumesProto (consume : FieldConsumer σ) : Prop :=
  ∀ number wireType use, consume number wireType = some (.message use) →
    ∀ s sub err, use s sub = .error err → ProtoError err

theorem FieldUse.read_raises {use : FieldUse σ}
    (h : ∀ use', use = .message use' → ∀ s sub err, use' s sub = .error err → ProtoError err)
    (s : σ) : RaisesProto (use.read toText s) := by
  cases use with
  | int32 use => exact (readVarintRaw_raises.map castInt32).map (use s)
  | string use =>
    exact ((readSized_raises (by decide)).map toText).map (use s)
  | message use =>
    intro l err herr
    unfold FieldUse.read at herr
    cases hsub : readSubMessage l with
    | error err' =>
      simp only [hsub] at herr
      obtain rfl : err' = err := Except.error.inj herr
      exact readSized_raises (by decide) l _ hsub
    | ok found =>
      simp only [hsub] at herr
      cases huse : use s found.1 with
      | error err' =>
        rw [huse] at herr
        obtain rfl : err' = err := Except.error.inj herr
        exact h use rfl s found.1 _ huse
      | ok s' =>
        rw [huse] at herr
        cases herr

/-- **Whatever ends `readAllFields` early is an error of the reader.** -/
theorem readAllFields_error (h : ConsumesProto consume) {s s' : σ} {l : List UInt8} {err : String}
    (hread : readAllFields toText consume s l = (s', some err)) : ProtoError err := by
  unfold readAllFields at hread
  have hturns : ∀ s, Turns (fieldTurn toText consume s) := fieldTurn_turns consume
  induction s, l using readAll_induction hturns with
  | nil s => cases hread
  | stop s l err' hne hturn =>
    rw [readAll_error hne hturn] at hread
    obtain rfl : err' = err := Option.some.inj (Prod.mk.inj hread).2
    have htag : RaisesProto readTag := readVarintRaw_raises.map fun v => (v >>> 3, v &&& 0x7)
    refine htag.andThen (fun tag => ?_) l _ hturn
    split
    case h_1 use huse =>
      exact FieldUse.read_raises (fun use' hmessage => h tag.1 tag.2 use' (hmessage ▸ huse)) s
    case h_2 => exact (skipField_raises tag.2).map fun _ => s
  | turn s l s'' rest hturn ih =>
    rw [readAll_ok (fieldTurn_turns consume) hturn] at hread
    exact ih hread

end PosseClient
