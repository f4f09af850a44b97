/-
# Objects as lists of members

Reading and writing the members of an object, and how long its text is.

* `findMember`, `putMember`, `removeMember`: one member, by its name.
* `length_object`, `length_array`: texts by their parts.
* `length_object_mono`, `length_object_put_swap`: members that get longer.
-/
import PosseClient.Lib.JsonSize

namespace PosseClient.Json

/-! ## 1. Members -/

/-- The members of an object, in the order in which they were put there. -/
abbrev Members := List (Utf16 × Value)

def findMember (key : Utf16) (members : Members) : Option Value :=
  (members.find? fun member => decide (member.1 = key)).map (·.2)

/-- A member in its place, or at the end where there was none of the name. -/
def putMember (key : Utf16) (value : Value) : Members → Members
  | [] => [(key, value)]
  | member :: rest =>
    if member.1 = key then (key, value) :: rest else member :: putMember key value rest

def removeMember (key : Utf16) (members : Members) : Members :=
  members.filter fun member => decide (member.1 ≠ key)

/-- A value, if it is a truthy one. -/
def truthy : Option Value → Option Value
  | some .null => none
  | some (.bool false) => none
  | some (.number n) => if n.text = [48] then none else some (.number n)
  | some (.string s) => if s = [] then none else some (.string s)
  | value => value

section Members

variable {key key' : Utf16} {value : Value} {members : Members}

theorem findMember_cons (member : Utf16 × Value) :
    findMember key (member :: members) =
      if member.1 = key then some member.2 else findMember key members := by
  unfold findMember
  rw [List.find?_cons]
  by_cases h : member.1 = key
  · simp [h]
  · simp [h]

theorem findMember_putMember (h : key' ≠ key) :
    findMember key' (putMember key value members) = findMember key' members := by
  induction members with
  | nil => simp [putMember, findMember, Ne.symm h]
  | cons member members ih =>
    rw [putMember]
    split
    case isTrue hkey =>
      rw [findMember_cons, findMember_cons, hkey, if_neg (Ne.symm h), if_neg (Ne.symm h)]
    case isFalse => rw [findMember_cons, findMember_cons, ih]

theorem putMember_ne_nil : putMember key value members ≠ [] := by
  cases members with
  | nil => simp [putMember]
  | cons member members =>
    rw [putMember]
    split <;> simp

end Members

/-! ## 2. Lengths -/

/-- What a member takes in the text of its object, with a comma. -/
def memberLength (member : Utf16 × Value) : ℕ :=
  (quote member.1).length + (stringify member.2).length + 2

theorem length_object {members : Members} (h : members ≠ []) :
    (stringify (.object members)).length = (members.map memberLength).sum + 1 := by
  have hweight := weight_object (w := fun _ => 1) h
  have hmembers : members.map (memberWeight fun _ => 1) = members.map memberLength := by
    refine List.map_congr_left fun member _ => ?_
    rw [memberWeight, weight_one, weight_one, memberLength]
    omega
  rw [weight_one, hmembers] at hweight
  omega

theorem length_array {items : List Value} (h : items ≠ []) :
    (stringify (.array items)).length =
      (items.map fun item => (stringify item).length + 1).sum + 1 := by
  have hitems : ∀ items : List Value, items ≠ [] →
      (stringifyItems items).length + 1 =
        (items.map fun item => (stringify item).length + 1).sum := by
    intro items
    induction items with
    | nil => exact fun h => absurd rfl h
    | cons item rest ih =>
      intro _
      cases rest with
      | nil => simp [stringifyItems]
      | cons next rest =>
        have hrest := ih (List.cons_ne_nil _ _)
        rw [stringifyItems]
        · rw [List.map_cons, List.sum_cons, ← hrest]
          simp only [List.length_append, List.length_cons]
          omega
        · simp
  have hlength := hitems items h
  rw [stringify]
  simp only [List.cons_append, List.length_cons, List.length_append, List.length_nil]
  omega

/-- A member of the same name that is no longer. -/
def ShorterMember (member member' : Utf16 × Value) : Prop :=
  member.1 = member'.1 ∧ (stringify member.2).length ≤ (stringify member'.2).length

theorem ShorterMember.refl (member : Utf16 × Value) : ShorterMember member member :=
  ⟨rfl, le_rfl⟩

theorem sum_memberLength_le {members members' : Members}
    (h : List.Forall₂ ShorterMember members members') :
    (members.map memberLength).sum ≤ (members'.map memberLength).sum := by
  induction h with
  | nil => simp
  | cons hmember hrest ih =>
    obtain ⟨hkey, hvalue⟩ := hmember
    simp only [List.map_cons, List.sum_cons, memberLength, hkey]
    omega

/-- **Members that get no longer** make their object no longer. -/
theorem length_object_mono {members members' : Members} (hne : members ≠ [])
    (h : List.Forall₂ ShorterMember members members') :
    (stringify (.object members)).length ≤ (stringify (.object members')).length := by
  have hne' : members' ≠ [] := by
    rintro rfl
    exact hne (List.forall₂_nil_right_iff.mp h)
  rw [length_object hne, length_object hne']
  have hsum := sum_memberLength_le h
  omega

theorem putMember_mono {members members' : Members} {key : Utf16} {value value' : Value}
    (h : List.Forall₂ ShorterMember members members')
    (hvalue : (stringify value).length ≤ (stringify value').length) :
    List.Forall₂ ShorterMember (putMember key value members) (putMember key value' members') := by
  induction h with
  | nil => exact .cons ⟨rfl, hvalue⟩ .nil
  | @cons member member' rest rest' hmember hrest ih =>
    rw [putMember, putMember, hmember.1]
    split
    · exact .cons ⟨rfl, hvalue⟩ hrest
    · exact .cons hmember ih

/-- What the value of a member changes in the text of its object. -/
theorem length_object_put_swap {members : Members} {key : Utf16} (value value' : Value) :
    (stringify (.object (putMember key value members))).length + (stringify value').length =
      (stringify (.object (putMember key value' members))).length + (stringify value).length := by
  have hsum : ((putMember key value members).map memberLength).sum + (stringify value').length =
      ((putMember key value' members).map memberLength).sum + (stringify value).length := by
    induction members with
    | nil =>
      simp only [putMember, List.map_cons, List.map_nil, List.sum_cons, List.sum_nil, memberLength]
      omega
    | cons member members ih =>
      rw [putMember, putMember]
      split
      · simp only [List.map_cons, List.sum_cons, memberLength]
        omega
      · simp only [List.map_cons, List.sum_cons]
        omega
  rw [length_object putMember_ne_nil, length_object putMember_ne_nil]
  omega

/-- An object is no longer than with a member that is no shorter than its own of the name. -/
theorem length_object_le_put {members : Members} {key : Utf16} {value : Value}
    (hne : members ≠ [])
    (h : ∀ own, findMember key members = some own →
      (stringify own).length ≤ (stringify value).length) :
    (stringify (.object members)).length ≤
      (stringify (.object (putMember key value members))).length := by
  have hsum : (members.map memberLength).sum ≤
      ((putMember key value members).map memberLength).sum := by
    clear hne
    induction members with
    | nil => simp
    | cons member members ih =>
      rw [putMember]
      split
      case isTrue hkey =>
        have hown := h member.2 (by rw [findMember_cons, if_pos hkey])
        simp only [List.map_cons, List.sum_cons, memberLength, hkey]
        omega
      case isFalse hkey =>
        have hrest := ih fun own hown => h own (by rw [findMember_cons, if_neg hkey, hown])
        simp only [List.map_cons, List.sum_cons]
        omega
  rw [length_object hne, length_object putMember_ne_nil]
  omega

/-- Items that get no longer make their array no longer. -/
theorem length_array_mono {items items' : List Value}
    (h : List.Forall₂ (fun item item' => (stringify item).length ≤ (stringify item').length)
      items items') :
    (stringify (.array items)).length ≤ (stringify (.array items')).length := by
  have hsum : (items.map fun item => (stringify item).length + 1).sum ≤
      (items'.map fun item => (stringify item).length + 1).sum := by
    induction h with
    | nil => simp
    | cons hitem _ ih =>
      simp only [List.map_cons, List.sum_cons]
      omega
  cases h with
  | nil => rfl
  | cons hitem hrest =>
    rw [length_array (List.cons_ne_nil _ _), length_array (List.cons_ne_nil _ _)]
    omega

/-- An object is no shorter with another member, and no longer without it. -/
theorem length_object_remove {members : Members} (key : Utf16) (value : Value)
    (hne : removeMember key members ≠ []) :
    (stringify (.object (removeMember key members))).length ≤
      (stringify (.object (putMember key value members))).length := by
  rw [length_object hne, length_object putMember_ne_nil]
  have hsum : ∀ members : Members, ((removeMember key members).map memberLength).sum ≤
      ((putMember key value members).map memberLength).sum := by
    intro members
    induction members with
    | nil => simp [removeMember]
    | cons member members ih =>
      have hrest : ((removeMember key members).map memberLength).sum ≤
          (members.map memberLength).sum :=
        List.Sublist.sum_le_sum ((List.filter_sublist).map _) fun _ _ => Nat.zero_le _
      unfold removeMember at ih hrest ⊢
      rw [putMember]
      by_cases hkey : member.1 = key
      · rw [List.filter_cons_of_neg (by simp [hkey]), if_pos hkey, List.map_cons, List.sum_cons]
        omega
      · rw [List.filter_cons_of_pos (by simp [hkey]), if_neg hkey, List.map_cons, List.sum_cons,
          List.map_cons, List.sum_cons]
        omega
  have hlength := hsum members
  omega

end PosseClient.Json
