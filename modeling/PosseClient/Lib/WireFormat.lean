/-
# The protobuf wire format

A message is a list of fields, and a field is a number with a payload of one of four kinds.  Bytes
encode a message in many ways: a number is any run of seven-bit groups, lowest first, that ends
with a group below 128 and is ten bytes long at most.

* `IsVarint`, `EncodesField`: what bytes encode a number, and a field.
* `varintOf`, `messageBytes`: the shortest encoding, and that it is one.
* `int32Of`: the `int32` of a number, with `int32Of_signExtended`.
-/
import PosseClient.Lib.Readers

namespace PosseClient.WireFormat

open Readers

/-! ## 1. Numbers -/

/-- The groups of a number: all but the last have the continuation bit. -/
inductive Groups : List UInt8 → ℕ → Prop
  | last {b : UInt8} : b.toNat < 128 → Groups [b] b.toNat
  | more {b : UInt8} {l : List UInt8} {v : ℕ} :
      128 ≤ b.toNat → Groups l v → Groups (b :: l) (b.toNat % 128 + 128 * v)

/-- **The encodings of a number**, the longer ones among them. -/
structure IsVarint (l : List UInt8) (v : ℕ) : Prop where
  groups : Groups l v
  length_le : l.length ≤ 10

theorem Groups.ne_nil {l : List UInt8} {v : ℕ} (h : Groups l v) : l ≠ [] := by
  cases h <;> simp

/-- The groups of a number, as few as there can be. -/
def groupsOf : ℕ → ℕ → List UInt8
  | 0, v => [UInt8.ofNat (v % 128)]
  | fuel + 1, v =>
    if v < 128 then [UInt8.ofNat v]
    else UInt8.ofNat (v % 128 + 128) :: groupsOf fuel (v / 128)

/-- The shortest encoding of a number. -/
def varintOf (v : ℕ) : List UInt8 := groupsOf 9 v

theorem groups_groupsOf : ∀ (fuel v : ℕ), v < 128 ^ (fuel + 1) →
    Groups (groupsOf fuel v) v ∧ (groupsOf fuel v).length ≤ fuel + 1
  | 0, v, h => by
    have hb : (UInt8.ofNat (v % 128)).toNat = v := by
      simp only [zero_add, pow_one] at h
      rw [UInt8.toNat_ofNat']
      omega
    refine ⟨?_, le_rfl⟩
    have hlast := Groups.last (b := UInt8.ofNat (v % 128)) (by omega)
    rwa [hb] at hlast
  | fuel + 1, v, h => by
    rw [groupsOf]
    split
    case isTrue hlt =>
      have hb : (UInt8.ofNat v).toNat = v := by
        rw [UInt8.toNat_ofNat']
        omega
      refine ⟨?_, by simp⟩
      have hlast := Groups.last (b := UInt8.ofNat v) (by omega)
      rwa [hb] at hlast
    case isFalse hge =>
      have hb : (UInt8.ofNat (v % 128 + 128)).toNat = v % 128 + 128 := by
        rw [UInt8.toNat_ofNat']
        omega
      have hv : v / 128 < 128 ^ (fuel + 1) := by
        rw [Nat.div_lt_iff_lt_mul (by decide), ← pow_succ]
        exact h
      obtain ⟨hgroups, hlength⟩ := groups_groupsOf fuel (v / 128) hv
      refine ⟨?_, by simpa using hlength⟩
      have hmore := Groups.more (b := UInt8.ofNat (v % 128 + 128)) (by omega) hgroups
      rwa [hb, Nat.add_mod_right, Nat.mod_mod, Nat.mod_add_div] at hmore

theorem isVarint_varintOf {v : ℕ} (h : v < 2 ^ 70) : IsVarint (varintOf v) v := by
  obtain ⟨hgroups, hlength⟩ := groups_groupsOf 9 v (h.trans_eq (by norm_num))
  exact ⟨hgroups, hlength⟩

/-- The `int32` of a number: its lowest 32 bits, signed. -/
def int32Of (v : ℕ) : ℤ :=
  if v % 2 ^ 32 < 2 ^ 31 then (v % 2 ^ 32 : ℕ) else (v % 2 ^ 32 : ℕ) - 2 ^ 32

/-- An `int32` on the wire: extended to 64 bits. -/
def signExtended (x : ℤ) : ℕ := (x % 2 ^ 64).toNat

/-! ## 2. Fields -/

/-- What a field holds, by its wire type. -/
inductive Payload where
  | varint (v : ℕ)
  | fixed64 (l : List UInt8)
  | bytes (l : List UInt8)
  | fixed32 (l : List UInt8)
  deriving DecidableEq, Repr

structure Field where
  number : ℕ
  payload : Payload
  deriving DecidableEq, Repr

/-- The wire type, the lowest three bits of a tag. -/
def Payload.wireType : Payload → ℕ
  | .varint _ => 0
  | .fixed64 _ => 1
  | .bytes _ => 2
  | .fixed32 _ => 5

theorem Payload.wireType_lt (p : Payload) : p.wireType < 8 := by
  cases p <;> simp [Payload.wireType]

/-- The number that stands before a payload. -/
def Field.tag (f : Field) : ℕ := f.number * 8 + f.payload.wireType

/-- The bytes of a payload. -/
inductive EncodesPayload : Payload → List UInt8 → Prop
  | varint {v : ℕ} {l : List UInt8} : IsVarint l v → EncodesPayload (.varint v) l
  | fixed64 {l : List UInt8} : l.length = 8 → EncodesPayload (.fixed64 l) l
  | bytes {size l : List UInt8} : IsVarint size l.length → EncodesPayload (.bytes l) (size ++ l)
  | fixed32 {l : List UInt8} : l.length = 4 → EncodesPayload (.fixed32 l) l

/-- **The bytes of a field**: an encoding of its tag, and one of its payload. -/
def EncodesField (f : Field) (l : List UInt8) : Prop :=
  ∃ tag payload, IsVarint tag f.tag ∧ EncodesPayload f.payload payload ∧ l = tag ++ payload

/-- **The bytes of a message**: those of its fields, one after the other. -/
def Encodes (fields : List Field) (l : List UInt8) : Prop :=
  ∃ parts, List.Forall₂ EncodesField fields parts ∧ l = parts.flatten

theorem EncodesField.ne_nil {f : Field} {l : List UInt8} (h : EncodesField f l) : l ≠ [] := by
  obtain ⟨tag, payload, htag, -, rfl⟩ := h
  simp [htag.groups.ne_nil]

theorem encodes_nil : Encodes [] [] := ⟨[], .nil, rfl⟩

theorem Encodes.cons {f : Field} {fields : List Field} {part l : List UInt8}
    (hf : EncodesField f part) (h : Encodes fields l) : Encodes (f :: fields) (part ++ l) := by
  obtain ⟨parts, hparts, rfl⟩ := h
  exact ⟨part :: parts, .cons hf hparts, rfl⟩

/-- Numbers that stand one after the other, as a packed field holds them. -/
def EncodesNumbers (vs : List ℕ) (l : List UInt8) : Prop :=
  ∃ parts, List.Forall₂ (fun v part => IsVarint part v) vs parts ∧ l = parts.flatten

/-- What a field holds under a number, when that is bytes. -/
def Field.bytesAt (n : ℕ) : Field → List (List UInt8)
  | ⟨number, .bytes b⟩ => if number = n then [b] else []
  | _ => []

/-- What a field holds under a number, when that is a number. -/
def Field.varintsAt (n : ℕ) : Field → List ℕ
  | ⟨number, .varint v⟩ => if number = n then [v] else []
  | _ => []

/-- The values of a message under a number; where the schema has one value the last one counts. -/
def bytesAt (n : ℕ) (fields : List Field) : List (List UInt8) := fields.flatMap (Field.bytesAt n)

def varintsAt (n : ℕ) (fields : List Field) : List ℕ := fields.flatMap (Field.varintsAt n)

/-- **Repeated `int32`s** under a number: packed, one number a field, or both. -/
inductive Int32sAt (n : ℕ) : List Field → List ℤ → Prop
  | nil : Int32sAt n [] []
  | packed {vs : List ℕ} {b : List UInt8} {fields : List Field} {xs : List ℤ} :
      EncodesNumbers vs b → Int32sAt n fields xs →
        Int32sAt n (⟨n, .bytes b⟩ :: fields) (vs.map int32Of ++ xs)
  | single {v : ℕ} {fields : List Field} {xs : List ℤ} :
      Int32sAt n fields xs → Int32sAt n (⟨n, .varint v⟩ :: fields) (int32Of v :: xs)
  | other {f : Field} {fields : List Field} {xs : List ℤ} :
      f.bytesAt n = [] → f.varintsAt n = [] → Int32sAt n fields xs → Int32sAt n (f :: fields) xs

@[simp] theorem bytesAt_cons (n : ℕ) (f : Field) (fields : List Field) :
    bytesAt n (f :: fields) = f.bytesAt n ++ bytesAt n fields := rfl

@[simp] theorem varintsAt_cons (n : ℕ) (f : Field) (fields : List Field) :
    varintsAt n (f :: fields) = f.varintsAt n ++ varintsAt n fields := rfl

/-! ## 3. The shortest encodings -/

/-- The bytes of a payload, with the shortest numbers. -/
def payloadBytes : Payload → List UInt8
  | .varint v => varintOf v
  | .fixed64 l => l
  | .bytes l => varintOf l.length ++ l
  | .fixed32 l => l

def fieldBytes (f : Field) : List UInt8 := varintOf f.tag ++ payloadBytes f.payload

/-- The bytes of a message, with the shortest numbers. -/
def messageBytes (fields : List Field) : List UInt8 := fields.flatMap fieldBytes

/-- A field that the shortest encoding holds. -/
def Field.Fits : Field → Prop
  | ⟨number, .varint v⟩ => number < 2 ^ 29 ∧ v < 2 ^ 64
  | ⟨number, .fixed64 l⟩ => number < 2 ^ 29 ∧ l.length = 8
  | ⟨number, .bytes l⟩ => number < 2 ^ 29 ∧ l.length < 2 ^ 64
  | ⟨number, .fixed32 l⟩ => number < 2 ^ 29 ∧ l.length = 4

instance : DecidablePred Field.Fits
  | ⟨_, .varint _⟩ => inferInstanceAs (Decidable (_ ∧ _))
  | ⟨_, .fixed64 _⟩ => inferInstanceAs (Decidable (_ ∧ _))
  | ⟨_, .bytes _⟩ => inferInstanceAs (Decidable (_ ∧ _))
  | ⟨_, .fixed32 _⟩ => inferInstanceAs (Decidable (_ ∧ _))

theorem Field.Fits.number_lt {f : Field} (h : f.Fits) : f.number < 2 ^ 29 := by
  obtain ⟨number, payload⟩ := f
  cases payload <;> exact h.1

theorem encodesField_fieldBytes {f : Field} (h : f.Fits) : EncodesField f (fieldBytes f) := by
  have hnumber := h.number_lt
  have htype := f.payload.wireType_lt
  refine ⟨varintOf _, payloadBytes f.payload, isVarint_varintOf ?_, ?_, rfl⟩
  · unfold Field.tag
    omega
  · obtain ⟨number, payload⟩ := f
    cases payload with
    | varint v => exact .varint (isVarint_varintOf (h.2.trans (by norm_num)))
    | fixed64 l => exact .fixed64 h.2
    | bytes l => exact .bytes (isVarint_varintOf (h.2.trans (by norm_num)))
    | fixed32 l => exact .fixed32 h.2

theorem encodes_messageBytes {fields : List Field} (h : ∀ f ∈ fields, f.Fits) :
    Encodes fields (messageBytes fields) := by
  induction fields with
  | nil => exact encodes_nil
  | cons f fields ih =>
    rw [List.forall_mem_cons] at h
    exact Encodes.cons (encodesField_fieldBytes h.1) (ih h.2)

theorem encodesNumbers_flatMap {vs : List ℕ} (h : ∀ v ∈ vs, v < 2 ^ 64) :
    EncodesNumbers vs (vs.flatMap varintOf) := by
  refine ⟨vs.map varintOf, ?_, rfl⟩
  rw [List.forall₂_map_right_iff, List.forall₂_same]
  exact fun v hv => isVarint_varintOf ((h v hv).trans (by norm_num))

end PosseClient.WireFormat
