/-
# Greedy orders under levels of constraints

The vertices of a finite set `V` are placed one after another.  A level is a relation that says what
must be placed before a vertex; the next vertex is the one with the least key among those that are
open at the first level that has an open vertex.

* `Grown.unique`: the key and the levels determine the order.
* `Grown.keeps`: a level without a cycle is kept, if all levels before it ask for more.
* `behindCycle_of_not_open`: with one level, what is never open is on a cycle or behind one.
* `Grown.lex_le`: with one level, no order that keeps it is before the greedy one.
-/
import PosseClient.Lib.Reachability

namespace PosseClient.GreedyOrder

open Reachability Relation

variable {α β : Type*} [LinearOrder β]

/-! ## 1. Vertices that are open -/

/-- `x` is not placed, and what must be placed before it is. -/
structure Open (V : Finset α) (before : α → α → Prop) (placed : Finset α) (x : α) : Prop where
  mem : x ∈ V
  unplaced : x ∉ placed
  placed_before : ∀ y ∈ V, before y x → y ∈ placed

/-- The relation between the vertices. -/
def Among (V : Finset α) (before : α → α → Prop) (x y : α) : Prop :=
  x ∈ V ∧ y ∈ V ∧ before x y

section Open

variable {V placed : Finset α} {before before' : α → α → Prop} {x : α}

theorem Open.mono (hless : ∀ y, before' y x → before y x) (h : Open V before placed x) :
    Open V before' placed x := by
  constructor
  · exact h.mem
  · exact h.unplaced
  · exact fun y hy hyx => h.placed_before y hy (hless y hyx)

end Open

/-! ## 2. The next vertex -/

/-- `x` is open and has the least key of all that are. -/
def Least (key : α → β) (V : Finset α) (before : α → α → Prop) (placed : Finset α) (x : α) :
    Prop :=
  Open V before placed x ∧ ∀ y, Open V before placed y → key x ≤ key y

/-- The next vertex: the least at the first level that has an open one. -/
def Picks (key : α → β) (V : Finset α) : List (α → α → Prop) → Finset α → α → Prop
  | [], _, _ => False
  | before :: levels, placed, x =>
    Least key V before placed x ∨
      ((∀ y, ¬ Open V before placed y) ∧ Picks key V levels placed x)

section Picks

variable {key : α → β} {V placed : Finset α} {before : α → α → Prop}
  {levels : List (α → α → Prop)} {x y : α}

theorem Picks.mem : ∀ {levels : List (α → α → Prop)}, Picks key V levels placed x →
    x ∈ V ∧ x ∉ placed
  | _ :: _, Or.inl h => ⟨h.1.mem, h.1.unplaced⟩
  | _ :: _, Or.inr h => Picks.mem h.2

theorem Picks.unique (hkey : Set.InjOn key V) : ∀ {levels : List (α → α → Prop)},
    Picks key V levels placed x → Picks key V levels placed y → x = y
  | _ :: _, Or.inl hx, Or.inl hy =>
    hkey hx.1.mem hy.1.mem (le_antisymm (hx.2 y hy.1) (hy.2 x hx.1))
  | _ :: _, Or.inl hx, Or.inr hy => absurd hx.1 (hy.1 x)
  | _ :: _, Or.inr hx, Or.inl hy => absurd hy.1 (hx.1 y)
  | _ :: _, Or.inr hx, Or.inr hy => Picks.unique hkey hx.2 hy.2

end Picks

/-! ## 3. Levels without a cycle -/

section Acyclic

variable [DecidableEq α] {key : α → β} {V placed : Finset α} {before : α → α → Prop} {x : α}

/-- **A level without a cycle has an open vertex** while one is not placed. -/
theorem exists_open (hacyclic : Acyclic (Among V before)) (hx : x ∈ V) (hplaced : x ∉ placed) :
    ∃ y, Open V before placed y := by
  -- a vertex that no other unplaced one leads to, in the finite set of the unplaced
  have htrans : IsTrans (V \ placed : Finset α) fun a b => TransGen (Among V before) a b :=
    ⟨fun _ _ _ hab hbc => hab.trans hbc⟩
  have hirrefl : Std.Irrefl fun a b : (V \ placed : Finset α) => TransGen (Among V before) a b :=
    ⟨fun a => hacyclic a⟩
  have hwf := Finite.wellFounded_of_trans_of_irrefl
    fun a b : (V \ placed : Finset α) => TransGen (Among V before) a b
  obtain ⟨⟨y, hy⟩, -, hleast⟩ := hwf.has_min Set.univ
    ⟨⟨x, Finset.mem_sdiff.mpr ⟨hx, hplaced⟩⟩, Set.mem_univ _⟩
  obtain ⟨hyV, hyP⟩ := Finset.mem_sdiff.mp hy
  refine ⟨y, hyV, hyP, fun z hz hzy => ?_⟩
  by_contra hzP
  exact hleast ⟨z, Finset.mem_sdiff.mpr ⟨hz, hzP⟩⟩ (Set.mem_univ _)
    (TransGen.single ⟨hz, hyV, hzy⟩)

/-- **A level without a cycle is kept**, if the levels before it ask for more. -/
theorem Picks.placed_before (hacyclic : Acyclic (Among V before)) :
    ∀ {stricter levels : List (α → α → Prop)},
      (∀ level ∈ stricter, ∀ a b, before a b → level a b) →
      Picks key V (stricter ++ before :: levels) placed x →
      ∀ y ∈ V, before y x → y ∈ placed
  | [], _, _, Or.inl h => h.1.placed_before
  | [], _, _, Or.inr h => by
    obtain ⟨z, hz⟩ := exists_open hacyclic h.2.mem.1 h.2.mem.2
    exact absurd hz (h.1 z)
  | _ :: _, _, hmore, Or.inl h => fun y hy hyx =>
    h.1.placed_before y hy (hmore _ List.mem_cons_self y x hyx)
  | _ :: _, _, hmore, Or.inr h =>
    Picks.placed_before hacyclic (fun level hlevel => hmore level (List.mem_cons_of_mem _ hlevel))
      h.2

end Acyclic

/-! ## 4. Orders -/

/-- A list of picks, after `placed`. -/
def Grown [DecidableEq α] (key : α → β) (V : Finset α) (levels : List (α → α → Prop)) :
    Finset α → List α → Prop
  | _, [] => True
  | placed, x :: xs => Picks key V levels placed x ∧ Grown key V levels (insert x placed) xs

section Grown

variable [DecidableEq α] {key : α → β} {V placed : Finset α} {before : α → α → Prop}
  {levels : List (α → α → Prop)} {x y : α} {l l' l₁ l₂ : List α}

theorem union_cons (placed : Finset α) (x : α) (xs : List α) :
    placed ∪ (x :: xs).toFinset = insert x placed ∪ xs.toFinset := by
  rw [List.toFinset_cons, Finset.union_insert, Finset.insert_union]

theorem grown_append : ∀ {l₁ : List α} {placed : Finset α},
    Grown key V levels placed (l₁ ++ l₂) ↔
      Grown key V levels placed l₁ ∧ Grown key V levels (placed ∪ l₁.toFinset) l₂
  | [], placed => by simp [Grown]
  | x :: xs, placed => by
    rw [List.cons_append, Grown, Grown, grown_append, union_cons, and_assoc]

/-- An order and one pick more. -/
theorem Grown.snoc (h : Grown key V levels placed l)
    (hx : Picks key V levels (placed ∪ l.toFinset) x) :
    Grown key V levels placed (l ++ [x]) :=
  grown_append.mpr ⟨h, hx, trivial⟩

theorem Grown.picks (h : Grown key V levels placed (l₁ ++ x :: l₂)) :
    Picks key V levels (placed ∪ l₁.toFinset) x :=
  (grown_append.mp h).2.1

theorem Grown.mem_nodup : ∀ {l : List α} {placed : Finset α}, Grown key V levels placed l →
    l.Nodup ∧ ∀ y ∈ l, y ∈ V ∧ y ∉ placed
  | [], _, _ => by simp
  | x :: xs, placed, h => by
    obtain ⟨hnodup, hmem⟩ := h.2.mem_nodup
    constructor
    · refine List.nodup_cons.mpr ⟨fun hx => ?_, hnodup⟩
      exact (hmem x hx).2 (Finset.mem_insert_self x placed)
    · intro y hy
      rcases List.mem_cons.mp hy with rfl | hy
      · exact h.1.mem
      · exact ⟨(hmem y hy).1, fun hyP => (hmem y hy).2 (Finset.mem_insert_of_mem hyP)⟩

/-- Of two orders grown alike, the shorter is the start of the other. -/
theorem Grown.append_of_le (hkey : Set.InjOn key V) : ∀ {l l' : List α} {placed : Finset α},
    Grown key V levels placed l → Grown key V levels placed l' → l.length ≤ l'.length →
      ∃ rest, l' = l ++ rest
  | [], l', _, _, _, _ => ⟨l', rfl⟩
  | x :: xs, y :: ys, _, h, h', hlength => by
    obtain rfl := h.1.unique hkey h'.1
    obtain ⟨rest, rfl⟩ := Grown.append_of_le hkey h.2 h'.2 (Nat.le_of_succ_le_succ hlength)
    exact ⟨rest, rfl⟩

/-- **The key and the levels determine the order.** -/
theorem Grown.unique (hkey : Set.InjOn key V) : ∀ {l l' : List α} {placed : Finset α},
    Grown key V levels placed l → Grown key V levels placed l' → l.length = l'.length → l = l'
  | [], [], _, _, _, _ => rfl
  | x :: xs, y :: ys, placed, h, h', hlength => by
    obtain rfl := h.1.unique hkey h'.1
    rw [Grown.unique hkey h.2 h'.2 (Nat.succ.inj hlength)]

/-- **A level without a cycle is kept** along the order. -/
theorem Grown.placed_before {stricter : List (α → α → Prop)}
    (hacyclic : Acyclic (Among V before))
    (hmore : ∀ level ∈ stricter, ∀ a b, before a b → level a b)
    (h : Grown key V (stricter ++ before :: levels) ∅ (l₁ ++ x :: l₂)) (hy : y ∈ V)
    (hyx : before y x) : y ∈ l₁ := by
  have hplaced := h.picks.placed_before hacyclic hmore y hy hyx
  rwa [Finset.empty_union, List.mem_toFinset] at hplaced

/-- What a kept level puts before a vertex comes before it in the order. -/
theorem Grown.keeps {stricter : List (α → α → Prop)} (hacyclic : Acyclic (Among V before))
    (hmore : ∀ level ∈ stricter, ∀ a b, before a b → level a b)
    (h : Grown key V (stricter ++ before :: levels) ∅ l) (hx : x ∈ l) (hy : y ∈ V)
    (hyx : before y x) : [y, x].Sublist l := by
  obtain ⟨l₁, l₂, rfl⟩ := List.append_of_mem hx
  have hyl : y ∈ l₁ := h.placed_before hacyclic hmore hy hyx
  exact (List.singleton_sublist.mpr hyl).append ((List.nil_sublist l₂).cons_cons x)

/-- A list all of whose splits are picks. -/
theorem grown_of_picks : ∀ {l : List α} {placed : Finset α},
    (∀ l₁ x l₂, l = l₁ ++ x :: l₂ → Picks key V levels (placed ∪ l₁.toFinset) x) →
      Grown key V levels placed l
  | [], _, _ => trivial
  | x :: xs, placed, h => by
    constructor
    · have hfirst := h [] x xs rfl
      rwa [List.toFinset_nil, Finset.union_empty] at hfirst
    · refine grown_of_picks fun l₁ y l₂ hsplit => ?_
      rw [← union_cons]
      exact h (x :: l₁) y l₂ (by rw [hsplit, List.cons_append])

end Grown

/-! ## 5. Two elements of a list -/

section Pair

variable {x y : α} {l : List α}

/-- Of two elements of a list without repeats, only one comes first. -/
theorem not_sublist_swap : ∀ {l : List α}, l.Nodup → [x, y].Sublist l → ¬ [y, x].Sublist l
  | [], _, h, _ => by cases h
  | a :: l, hnodup, h, h' => by
    obtain ⟨ha, hl⟩ := List.nodup_cons.mp hnodup
    cases h with
    | cons _ h =>
      cases h' with
      | cons _ h' => exact not_sublist_swap hl h h'
      | cons_cons _ _ => exact ha (h.subset (by simp))
    | cons_cons _ h =>
      cases h' with
      | cons _ h' => exact ha (h'.subset (by simp))
      | cons_cons _ _ => exact ha (h.subset (by simp))

/-- The first of two comes at a smaller index. -/
theorem idxOf_lt_of_sublist [DecidableEq α] : ∀ {l : List α}, l.Nodup → [x, y].Sublist l →
    l.idxOf x < l.idxOf y
  | [], _, h => by cases h
  | a :: l, hnodup, h => by
    obtain ⟨ha, hl⟩ := List.nodup_cons.mp hnodup
    have hya : a ≠ y := by
      rintro rfl
      cases h with
      | cons _ h => exact ha (h.subset (by simp))
      | cons_cons _ h => exact ha (h.subset (by simp))
    cases h with
    | cons _ h =>
      have hxa : a ≠ x := by
        rintro rfl
        exact ha (h.subset (by simp))
      rw [List.idxOf_cons_ne l hxa, List.idxOf_cons_ne l hya]
      exact Nat.succ_lt_succ (idxOf_lt_of_sublist hl h)
    | cons_cons _ _ =>
      rw [List.idxOf_cons_self, List.idxOf_cons_ne l hya]
      exact Nat.succ_pos _

/-- A list that puts what satisfies `p` first is its two parts. -/
theorem eq_filter_append {p : α → Bool} : ∀ {l : List α}, l.Nodup →
    (∀ x ∈ l, ∀ y ∈ l, p x = true → p y = false → [x, y].Sublist l) →
      l = l.filter p ++ l.filter fun x => !p x
  | [], _, _ => rfl
  | a :: l, hnodup, h => by
    obtain ⟨ha, hl⟩ := List.nodup_cons.mp hnodup
    cases hp : p a with
    | true =>
      have hrest := eq_filter_append hl fun x hx y hy hpx hpy => by
        have hsub := h x (List.mem_cons_of_mem a hx) y (List.mem_cons_of_mem a hy) hpx hpy
        cases hsub with
        | cons _ hsub => exact hsub
        | cons_cons _ _ => exact absurd hx ha
      rw [List.filter_cons_of_pos hp, List.filter_cons_of_neg (by simp [hp]), List.cons_append,
        ← hrest]
    | false =>
      -- what satisfies `p` would come before `a`
      have hnone : ∀ x ∈ l, p x = false := by
        intro x hx
        by_contra hpx
        have hsub := h x (List.mem_cons_of_mem a hx) a List.mem_cons_self
          (Bool.eq_true_of_not_eq_false hpx) hp
        cases hsub with
        | cons _ hsub => exact ha (hsub.subset (by simp))
        | cons_cons _ _ => exact ha hx
      have hempty : (a :: l).filter p = [] := by
        rw [List.filter_eq_nil_iff]
        intro x hx
        rcases List.mem_cons.mp hx with rfl | hx
        · simp [hp]
        · simp [hnone x hx]
      have hfull : (a :: l).filter (fun x => !p x) = a :: l := by
        rw [List.filter_eq_self]
        intro x hx
        rcases List.mem_cons.mp hx with rfl | hx
        · simp [hp]
        · simp [hnone x hx]
      rw [hempty, hfull, List.nil_append]

end Pair

/-! ## 6. What is left over -/

/-- `x` is on a cycle of the level, or behind one. -/
def BehindCycle (V : Finset α) (before : α → α → Prop) (x : α) : Prop :=
  ∃ y, TransGen (Among V before) y y ∧ ReflTransGen (Among V before) y x

section LeftOver

variable [DecidableEq α] {key : α → β} {V : Finset α} {before : α → α → Prop} {x y : α}
  {l : List α}

/-- What comes before a vertex of the order is placed before it. -/
theorem Grown.precedes (h : Grown key V [before] ∅ l) (hx : x ∈ l) (hyx : Among V before y x) :
    [y, x].Sublist l := by
  obtain ⟨l₁, l₂, rfl⟩ := List.append_of_mem hx
  have hopen : Open V before (∅ ∪ l₁.toFinset) x := by
    rcases h.picks with hleast | ⟨-, hnever⟩
    · exact hleast.1
    · exact hnever.elim
  have hplaced := hopen.placed_before y hyx.1 hyx.2.2
  rw [Finset.empty_union, List.mem_toFinset] at hplaced
  exact (List.singleton_sublist.mpr hplaced).append ((List.nil_sublist l₂).cons_cons x)

theorem Grown.idxOf_lt (h : Grown key V [before] ∅ l) (hx : x ∈ l) (hyx : Among V before y x) :
    y ∈ l ∧ l.idxOf y < l.idxOf x := by
  have hsub := h.precedes hx hyx
  exact ⟨hsub.subset (by simp), idxOf_lt_of_sublist h.mem_nodup.1 hsub⟩

theorem Grown.mem_of_leads (h : Grown key V [before] ∅ l) (hx : x ∈ l)
    (hyx : ReflTransGen (Among V before) y x) : y ∈ l := by
  induction hyx using ReflTransGen.head_induction_on with
  | refl => exact hx
  | head hedge _ ih => exact (h.idxOf_lt ih hedge).1

/-- No vertex behind a cycle is placed. -/
theorem Grown.not_behindCycle (h : Grown key V [before] ∅ l) (hx : x ∈ l) :
    ¬ BehindCycle V before x := by
  rintro ⟨y, hcycle, hyx⟩
  have hless : ∀ a, TransGen (Among V before) a y → a ∈ l ∧ l.idxOf a < l.idxOf y := by
    intro a hay
    induction hay using TransGen.head_induction_on with
    | single hedge => exact h.idxOf_lt (h.mem_of_leads hx hyx) hedge
    | head hedge _ ih =>
      obtain ⟨hmem, hlt⟩ := h.idxOf_lt ih.1 hedge
      exact ⟨hmem, hlt.trans ih.2⟩
  exact absurd (hless y hcycle).2 (lt_irrefl _)

/-- **What is left over is behind a cycle.** -/
theorem behindCycle_of_not_open {placed : Finset α} (hdone : ∀ y, ¬ Open V before placed y)
    (hx : x ∈ V) (hplaced : x ∉ placed) : BehindCycle V before x := by
  classical
  by_contra hcycle
  -- the unplaced vertices that lead to `x`: one of them would have none of them before it
  let W := V.filter fun y => y ∉ placed ∧ ReflTransGen (Among V before) y x
  have hW : ∀ {y}, y ∈ W ↔ y ∈ V ∧ y ∉ placed ∧ ReflTransGen (Among V before) y x := by
    intro y
    exact Finset.mem_filter
  have hacyclic : Acyclic (Among W before) := by
    intro y hy
    have hmono : ∀ a b, Among W before a b → Among V before a b := fun a b hab =>
      ⟨(hW.mp hab.1).1, (hW.mp hab.2.1).1, hab.2.2⟩
    obtain ⟨z, hz, -⟩ := TransGen.head'_iff.mp hy
    exact hcycle ⟨y, TransGen.mono hmono y y hy, (hW.mp hz.1).2.2⟩
  obtain ⟨w, hw⟩ := exists_open hacyclic (hW.mpr ⟨hx, hplaced, ReflTransGen.refl⟩)
    (Finset.notMem_empty x)
  obtain ⟨hwV, hwP, hwx⟩ := hW.mp hw.mem
  refine hdone w ⟨hwV, hwP, fun y hy hyw => ?_⟩
  by_contra hyP
  have hyW : y ∈ W := hW.mpr ⟨hy, hyP, ReflTransGen.head ⟨hy, hwV, hyw⟩ hwx⟩
  exact absurd (hw.placed_before y hyW hyw) (Finset.notMem_empty y)

end LeftOver

/-! ## 7. The least order -/

/-- The list keeps the level, after `placed`. -/
def Keeps [DecidableEq α] (V : Finset α) (before : α → α → Prop) : Finset α → List α → Prop
  | _, [] => True
  | placed, x :: xs =>
    (∀ y ∈ V, before y x → y ∈ placed) ∧ Keeps V before (insert x placed) xs

section LeastOrder

variable [DecidableEq α] {key : α → β} {V : Finset α} {before : α → α → Prop} {x y : α}
  {l l' : List α}

/-- A list in which what must come before a vertex does. -/
theorem keeps_of_sublist : ∀ {l : List α} {placed : Finset α}, l.Nodup →
    (∀ x ∈ l, ∀ y ∈ V, before y x → y ∈ placed ∨ [y, x].Sublist l) → Keeps V before placed l
  | [], _, _, _ => trivial
  | x :: xs, placed, hnodup, h => by
    obtain ⟨hx, hxs⟩ := List.nodup_cons.mp hnodup
    constructor
    · intro y hy hyx
      rcases h x List.mem_cons_self y hy hyx with hplaced | hsub
      · exact hplaced
      · -- `x` would be in the list twice
        cases hsub with
        | cons _ hsub => exact absurd (hsub.subset (by simp)) hx
        | cons_cons _ hsub => exact absurd (hsub.subset (by simp)) hx
    · refine keeps_of_sublist hxs fun z hz y hy hyz => ?_
      rcases h z (List.mem_cons_of_mem x hz) y hy hyz with hplaced | hsub
      · exact Or.inl (Finset.mem_insert_of_mem hplaced)
      · cases hsub with
        | cons _ hsub => exact Or.inr hsub
        | cons_cons _ _ => exact Or.inl (Finset.mem_insert_self _ _)

/-- **No order that keeps the level is before the greedy one**, by the keys from the first on. -/
theorem Grown.lex_le (hkey : Set.InjOn key V) : ∀ {l l' : List α} {placed : Finset α},
    Grown key V [before] placed l → Keeps V before placed l' → l'.Perm l →
      l.map key ≤ l'.map key
  | [], l', _, _, _, hperm => by
    rw [hperm.eq_nil]
  | x :: xs, [], _, _, _, hperm => absurd hperm.symm.eq_nil (List.cons_ne_nil x xs)
  | x :: xs, y :: ys, placed, h, h', hperm => by
    have hleast : Least key V before placed x := by
      rcases h.1 with hleast | ⟨-, hnever⟩
      · exact hleast
      · exact hnever.elim
    obtain ⟨hyV, hyP⟩ := h.mem_nodup.2 y (hperm.mem_iff.mp List.mem_cons_self)
    have hle := hleast.2 y ⟨hyV, hyP, h'.1⟩
    rw [List.map_cons, List.map_cons]
    rcases lt_or_eq_of_le hle with hlt | heq
    · exact le_of_lt (List.Lex.rel hlt)
    · obtain rfl := hkey hleast.1.mem hyV heq
      exact List.cons_le_cons _ (Grown.lex_le hkey h.2 h'.2 hperm.cons_inv)

/-- A sorted list of all that is not placed is grown without constraints. -/
theorem grown_of_sorted : ∀ {l : List α} {placed : Finset α},
    l.Pairwise (fun x y => key x ≤ key y) → l.Nodup → (∀ x, x ∈ l ↔ x ∈ V ∧ x ∉ placed) →
      Grown key V [fun _ _ => False] placed l
  | [], _, _, _, _ => trivial
  | x :: xs, placed, hsorted, hnodup, hmem => by
    obtain ⟨hx, hxs⟩ := List.nodup_cons.mp hnodup
    obtain ⟨hle, hrest⟩ := List.pairwise_cons.mp hsorted
    obtain ⟨hxV, hxP⟩ := (hmem x).mp List.mem_cons_self
    constructor
    · refine Or.inl ⟨⟨hxV, hxP, fun _ _ hfalse => hfalse.elim⟩, fun y hy => ?_⟩
      rcases List.mem_cons.mp ((hmem y).mpr ⟨hy.mem, hy.unplaced⟩) with rfl | hin
      · exact le_rfl
      · exact hle y hin
    · refine grown_of_sorted hrest hxs fun y => ?_
      rw [Finset.mem_insert, not_or]
      constructor
      · intro hy
        obtain ⟨hyV, hyP⟩ := (hmem y).mp (List.mem_cons_of_mem x hy)
        exact ⟨hyV, fun heq => hx (heq ▸ hy), hyP⟩
      · rintro ⟨hyV, hne, hyP⟩
        exact (List.mem_cons.mp ((hmem y).mpr ⟨hyV, hyP⟩)).resolve_left hne

/-- **A sorted list is the least of its permutations.** -/
theorem map_le_of_sorted (hsorted : l.Pairwise fun x y => key x ≤ key y) (hnodup : l.Nodup)
    (hkey : Set.InjOn key {x | x ∈ l}) (hperm : l'.Perm l) : l.map key ≤ l'.map key := by
  have hgrown : Grown key l.toFinset [fun _ _ => False] ∅ l :=
    grown_of_sorted hsorted hnodup fun x => by simp
  refine hgrown.lex_le ?_ (keeps_of_sublist (hperm.nodup_iff.mpr hnodup) ?_) hperm
  · intro x hx y hy heq
    exact hkey (List.mem_toFinset.mp hx) (List.mem_toFinset.mp hy) heq
  · exact fun _ _ _ _ hfalse => hfalse.elim

omit [DecidableEq α] in
/-- Two lists by their first and last parts. -/
theorem append_le_append : ∀ {l l' : List β} {m m' : List β}, l.length = l'.length → l ≤ l' →
    m ≤ m' → l ++ m ≤ l' ++ m'
  | [], [], _, _, _, _, hm => hm
  | x :: l, y :: l', m, m', hlength, hle, hm => by
    rw [List.cons_append, List.cons_append]
    rcases lt_or_eq_of_le hle with hlt | heq
    · rcases List.cons_lt_cons_iff.mp hlt with hxy | ⟨rfl, hl⟩
      · exact le_of_lt (List.Lex.rel hxy)
      · refine List.cons_le_cons x (append_le_append (Nat.succ.inj hlength) ?_ hm)
        exact le_of_lt hl
    · obtain ⟨rfl, rfl⟩ := List.cons.inj heq
      exact List.cons_le_cons x (append_le_append rfl le_rfl hm)

end LeastOrder

end PosseClient.GreedyOrder
