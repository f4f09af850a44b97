/-
# The lifetime slots of worker threads

`ThreadLifetimeRegistry` keeps an array of slots shared by the threads of the process.  A
positive number is the generation that holds the slot, a negative one the generation that gave it
back.  A slot is given out again under the next generation only, so a stale `retire`, which
compares and exchanges, changes nothing.

* `LifetimeRegistry.reserve`, `retire`, `hasExited`: the three operations, as the source has them.
* `Issued`: a generation no reservation exceeds; a new reservation differs from every issued one
  (`reserve_ne_issued`).
* `retire_holds`: retiring one reservation leaves every other one held.
* `Advances.hasExited`: what has exited stays so.
-/
import Mathlib

namespace PosseClient

/-! ## 1. The registry -/

/-- What `reserve` gives out. -/
structure ThreadLifetime where
  registry : String
  slot : ℕ
  generation : ℕ
  deriving DecidableEq, Repr

structure LifetimeRegistry where
  id : String
  states : List ℤ
  deriving DecidableEq, Repr

namespace LifetimeRegistry

/-- The last generation a slot of 32 bits can count. -/
def lastGeneration : ℤ := 2147483647

/-- The slots `reserve` does not pass over. -/
def free (previous : ℤ) : Bool := !(0 < previous || previous == -lastGeneration)

/-- `reserve`: the first free slot, under its next generation. -/
def reserve (reg : LifetimeRegistry) : LifetimeRegistry × Option ThreadLifetime :=
  match reg.states.findIdx? free with
  | none => (reg, none)
  | some slot =>
    let generation := (reg.states.getD slot 0).natAbs + 1
    ({ reg with states := reg.states.set slot generation }, some ⟨reg.id, slot, generation⟩)

/-- `retire`: a compare and exchange on the generation. -/
def retire (reg : LifetimeRegistry) : Option ThreadLifetime → LifetimeRegistry
  | none => reg
  | some lifetime =>
    if lifetime.registry ≠ reg.id then reg
    else if reg.states[lifetime.slot]? = some (lifetime.generation : ℤ) then
      { reg with states := reg.states.set lifetime.slot (-lifetime.generation) }
    else reg

/-- `hasExited`. -/
def hasExited (reg : LifetimeRegistry) (lifetime : ThreadLifetime) : Bool :=
  if lifetime.registry ≠ reg.id || lifetime.generation = 0 then false
  else
    match reg.states[lifetime.slot]? with
    | none => false
    | some state => state == -lifetime.generation || decide (lifetime.generation < state.natAbs)

@[simp] theorem retire_none (reg : LifetimeRegistry) : reg.retire none = reg := rfl

@[simp] theorem retire_id (reg : LifetimeRegistry) (lifetime : Option ThreadLifetime) :
    (reg.retire lifetime).id = reg.id := by
  unfold retire
  split
  · rfl
  · split_ifs <;> rfl

@[simp] theorem reserve_id (reg : LifetimeRegistry) : reg.reserve.1.id = reg.id := by
  unfold reserve
  split <;> rfl

/-! ## 2. Issued and held reservations -/

/-- A reservation of this registry: its slot has counted at least to its generation. -/
structure Issued (reg : LifetimeRegistry) (lifetime : ThreadLifetime) : Prop where
  registry : lifetime.registry = reg.id
  pos : 0 < lifetime.generation
  counted : ∃ state, reg.states[lifetime.slot]? = some state ∧
    lifetime.generation ≤ state.natAbs

/-- The slot shows the generation. -/
structure Holds (reg : LifetimeRegistry) (lifetime : ThreadLifetime) : Prop where
  registry : lifetime.registry = reg.id
  pos : 0 < lifetime.generation
  shown : reg.states[lifetime.slot]? = some (lifetime.generation : ℤ)

variable {reg : LifetimeRegistry} {lifetime other : ThreadLifetime}

theorem Holds.issued (h : reg.Holds lifetime) : reg.Issued lifetime :=
  ⟨h.registry, h.pos, _, h.shown, by simp⟩

/-- An issued reservation has exited when its slot has given it back or counted past it. -/
theorem Issued.hasExited_iff (h : reg.Issued lifetime) :
    reg.hasExited lifetime = true ↔ ∃ state, reg.states[lifetime.slot]? = some state ∧
      (state = -lifetime.generation ∨ lifetime.generation < state.natAbs) := by
  obtain ⟨state, hstate, -⟩ := h.counted
  have hpos := h.pos
  unfold hasExited
  rw [if_neg (by simp [h.registry]; omega), hstate]
  simp

theorem Holds.hasExited_eq_false (h : reg.Holds lifetime) : reg.hasExited lifetime = false := by
  rw [← Bool.not_eq_true, h.issued.hasExited_iff]
  rintro ⟨state, hstate, hexited⟩
  have hpos := h.pos
  obtain rfl : (lifetime.generation : ℤ) = state := by
    rw [h.shown] at hstate
    exact Option.some.inj hstate
  rcases hexited with hexited | hexited
  · omega
  · simp at hexited

/-! ## 3. What the operations keep -/

/-- What a reservation does to the slots: one that nobody holds shows its next generation. -/
theorem reserve_cases (reg : LifetimeRegistry) :
    reg.reserve = (reg, none) ∨ ∃ slot previous, reg.states[slot]? = some previous ∧
      ¬ 0 < previous ∧
      reg.reserve = ({ reg with states := reg.states.set slot (previous.natAbs + 1 : ℕ) },
        some ⟨reg.id, slot, previous.natAbs + 1⟩) := by
  unfold reserve
  cases hfind : reg.states.findIdx? free with
  | none => exact Or.inl rfl
  | some slot =>
    right
    obtain ⟨hslot, hfree, -⟩ := List.findIdx?_eq_some_iff_getElem.mp hfind
    refine ⟨slot, reg.states[slot], List.getElem?_eq_getElem hslot, ?_, ?_⟩
    · intro hpos
      simp [free, hpos] at hfree
    · simp [hslot]

/-- **A fresh reservation is held.** -/
theorem holds_reserve (h : reg.reserve.2 = some lifetime) : reg.reserve.1.Holds lifetime := by
  rcases reserve_cases reg with hres | ⟨slot, previous, hprevious, -, hres⟩
  · rw [hres] at h
    cases h
  · rw [hres] at h ⊢
    obtain rfl := Option.some.inj h
    have hslot : slot < reg.states.length := (List.getElem?_eq_some_iff.mp hprevious).1
    exact ⟨rfl, Nat.succ_pos _, by simp [hslot]⟩

/-- **A fresh reservation is a new one.** -/
theorem reserve_ne_issued (h : reg.reserve.2 = some lifetime) (hissued : reg.Issued other) :
    lifetime ≠ other := by
  rcases reserve_cases reg with hres | ⟨slot, previous, hprevious, -, hres⟩
  · rw [hres] at h
    cases h
  · rw [hres] at h
    obtain rfl := Option.some.inj h
    rintro rfl
    obtain ⟨state, hstate, hle⟩ := hissued.counted
    obtain rfl : previous = state := by
      rw [hprevious] at hstate
      exact Option.some.inj hstate
    simp only at hle
    omega

/-- A held slot is not given out. -/
theorem Holds.reserve (h : reg.Holds lifetime) : reg.reserve.1.Holds lifetime := by
  refine ⟨by simpa using h.registry, h.pos, ?_⟩
  rcases reserve_cases reg with hres | ⟨slot, previous, hprevious, hfree, hres⟩
  · rw [hres]
    exact h.shown
  · rw [hres]
    have hslot : slot ≠ lifetime.slot := by
      rintro rfl
      obtain rfl : previous = lifetime.generation := by
        rw [h.shown] at hprevious
        exact (Option.some.inj hprevious).symm
      have hpos := h.pos
      omega
    simpa [List.getElem?_set, hslot] using h.shown

/-- What `retire` does to the slots: the slot it names gives its generation back, when it shows
that generation. -/
theorem retire_cases (reg : LifetimeRegistry) (lifetime : ThreadLifetime) :
    (reg.retire (some lifetime) = reg ∧
      ¬ (lifetime.registry = reg.id ∧
        reg.states[lifetime.slot]? = some (lifetime.generation : ℤ))) ∨
    (lifetime.registry = reg.id ∧ reg.states[lifetime.slot]? = some (lifetime.generation : ℤ) ∧
      reg.retire (some lifetime) =
        { reg with states := reg.states.set lifetime.slot (-lifetime.generation) }) := by
  unfold retire
  by_cases hid : lifetime.registry = reg.id
  · by_cases hshown : reg.states[lifetime.slot]? = some (lifetime.generation : ℤ)
    · exact Or.inr ⟨hid, hshown, by simp [hid, hshown]⟩
    · exact Or.inl ⟨by simp [hshown], fun h => hshown h.2⟩
  · exact Or.inl ⟨by simp [hid], fun h => hid h.1⟩

/-- The second call of `retire` changes nothing. -/
theorem retire_retire (reg : LifetimeRegistry) (given : Option ThreadLifetime) :
    (reg.retire given).retire given = reg.retire given := by
  cases given with
  | none => rfl
  | some lifetime =>
    rcases retire_cases reg lifetime with ⟨hret, -⟩ | ⟨-, hshown, hret⟩
    · rw [hret, hret]
    · have hlen : lifetime.slot < reg.states.length := (List.getElem?_eq_some_iff.mp hshown).1
      rw [hret]
      rcases retire_cases
          { reg with states := reg.states.set lifetime.slot (-lifetime.generation) } lifetime with
        ⟨hagain, -⟩ | ⟨-, -, hagain⟩
      · exact hagain
      · rw [hagain, List.set_set]

/-- A slot only counts on: it stays, gives its generation back, or shows a later one. -/
def Advances (reg reg' : LifetimeRegistry) : Prop :=
  reg'.id = reg.id ∧ ∀ (slot : ℕ) (state : ℤ), reg.states[slot]? = some state →
    ∃ state', reg'.states[slot]? = some state' ∧
      (state' = state ∨ (0 < state ∧ state' = -state) ∨ state.natAbs < state'.natAbs)

theorem Advances.refl (reg : LifetimeRegistry) : reg.Advances reg :=
  ⟨rfl, fun _ state hstate => ⟨state, hstate, Or.inl rfl⟩⟩

theorem Advances.trans {reg' reg'' : LifetimeRegistry} (h : reg.Advances reg')
    (h' : reg'.Advances reg'') : reg.Advances reg'' := by
  refine ⟨h'.1.trans h.1, fun slot state hstate => ?_⟩
  obtain ⟨state', hstate', hnext⟩ := h.2 slot state hstate
  obtain ⟨state'', hstate'', hnext'⟩ := h'.2 slot state' hstate'
  exact ⟨state'', hstate'', by omega⟩

theorem advances_reserve (reg : LifetimeRegistry) : reg.Advances reg.reserve.1 := by
  rcases reserve_cases reg with hres | ⟨slot, previous, hprevious, -, hres⟩
  · rw [hres]
    exact Advances.refl reg
  · rw [hres]
    refine ⟨rfl, fun at' state hstate => ?_⟩
    by_cases hslot : slot = at'
    · subst hslot
      obtain rfl : previous = state := by
        rw [hprevious] at hstate
        exact Option.some.inj hstate
      have hlen : slot < reg.states.length := (List.getElem?_eq_some_iff.mp hprevious).1
      refine ⟨(previous.natAbs + 1 : ℕ), List.getElem?_set_self hlen, Or.inr (Or.inr ?_)⟩
      simp only [Int.natAbs_natCast]
      omega
    · exact ⟨state, by simpa [List.getElem?_set, hslot] using hstate, Or.inl rfl⟩

theorem advances_retire (reg : LifetimeRegistry) (given : Option ThreadLifetime)
    (hpos : ∀ lifetime ∈ given, 0 < lifetime.generation) : reg.Advances (reg.retire given) := by
  cases given with
  | none => exact Advances.refl reg
  | some lifetime =>
    rcases retire_cases reg lifetime with ⟨hret, -⟩ | ⟨-, hshown, hret⟩
    · rw [hret]
      exact Advances.refl reg
    · rw [hret]
      refine ⟨rfl, fun slot state hstate => ?_⟩
      by_cases hslot : lifetime.slot = slot
      · subst hslot
        obtain rfl : (lifetime.generation : ℤ) = state := by
          rw [hstate] at hshown
          exact (Option.some.inj hshown).symm
        have hlen : lifetime.slot < reg.states.length := (List.getElem?_eq_some_iff.mp hstate).1
        have hgeneration := hpos lifetime rfl
        exact ⟨-(lifetime.generation : ℤ), List.getElem?_set_self hlen,
          Or.inr (Or.inl ⟨by omega, rfl⟩)⟩
      · exact ⟨state, by simpa [List.getElem?_set, hslot] using hstate, Or.inl rfl⟩

theorem Advances.issued {reg' : LifetimeRegistry} (h : reg.Advances reg')
    (hissued : reg.Issued lifetime) : reg'.Issued lifetime := by
  obtain ⟨state, hstate, hle⟩ := hissued.counted
  obtain ⟨state', hstate', hnext⟩ := h.2 _ _ hstate
  exact ⟨hissued.registry.trans h.1.symm, hissued.pos, state', hstate', by omega⟩

/-- **What has exited stays so**, whoever gets the slot next. -/
theorem Advances.hasExited {reg' : LifetimeRegistry} (h : reg.Advances reg')
    (hissued : reg.Issued lifetime) (hexited : reg.hasExited lifetime = true) :
    reg'.hasExited lifetime = true := by
  obtain ⟨state, hstate, hback⟩ := hissued.hasExited_iff.mp hexited
  obtain ⟨state', hstate', hnext⟩ := h.2 _ _ hstate
  have hpos := hissued.pos
  exact (h.issued hissued).hasExited_iff.mpr ⟨state', hstate', by omega⟩

/-- **Retiring one reservation leaves every other one held**, whatever slot the two share. -/
theorem retire_holds (h : reg.Holds lifetime) (hne : other ≠ lifetime) :
    (reg.retire (some other)).Holds lifetime := by
  refine ⟨by simpa using h.registry, h.pos, ?_⟩
  rcases retire_cases reg other with ⟨hret, -⟩ | ⟨hid, hshown, hret⟩
  · rw [hret]
    exact h.shown
  · rw [hret]
    have hslot : other.slot ≠ lifetime.slot := by
      intro hslot
      have hgeneration : other.generation = lifetime.generation := by
        rw [hslot, h.shown] at hshown
        exact_mod_cast (Option.some.inj hshown).symm
      apply hne
      cases other
      cases lifetime
      simp only [ThreadLifetime.mk.injEq]
      exact ⟨hid.trans h.registry.symm, hslot, hgeneration⟩
    simpa [List.getElem?_set, hslot] using h.shown

/-- A retired reservation has exited. -/
theorem hasExited_retire_self (h : reg.Holds lifetime) :
    (reg.retire (some lifetime)).hasExited lifetime = true := by
  have hissued : (reg.retire (some lifetime)).Issued lifetime := by
    refine (advances_retire reg _ ?_).issued h.issued
    intro other hother
    obtain rfl := Option.some.inj hother
    exact h.pos
  refine hissued.hasExited_iff.mpr ?_
  rcases retire_cases reg lifetime with ⟨-, hnot⟩ | ⟨-, hshown, hret⟩
  · exact absurd ⟨h.registry, h.shown⟩ hnot
  · have hlen : lifetime.slot < reg.states.length := (List.getElem?_eq_some_iff.mp hshown).1
    rw [hret]
    exact ⟨-(lifetime.generation : ℤ), List.getElem?_set_self hlen, Or.inl rfl⟩

end LifetimeRegistry

end PosseClient
