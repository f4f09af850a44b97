/-
# Finite directed graphs: reachability by saturation, and edges that close no cycle

A graph is a list of edges over a type with decidable equality.  `reach E x` is the set a
recursive query with duplicate elimination computes: start from the successors of `x` and
add successors of what is already there until nothing is new.

* `mem_reach_iff`: that set is exactly what one or more edges lead to from `x`
  (`Relation.TransGen`), so a membership test on it decides reachability.
* `acyclic_of_fan`: edges that all leave one vertex `j` and lead to vertices from which `j`
  cannot be reached do not close a cycle, however many are added at once.
* `PathsInside`: a set that no path between two of its members leaves; an edge between two members
  keeps it so.
-/
import Mathlib

namespace PosseClient.Reachability

variable {α : Type*}

/-! ## 1. Acyclic relations -/

/-- No vertex reaches itself by one or more edges. -/
def Acyclic (r : α → α → Prop) : Prop := ∀ x, ¬ Relation.TransGen r x x

theorem Acyclic.irrefl {r : α → α → Prop} (h : Acyclic r) (x : α) : ¬ r x x :=
  fun hx => h x (Relation.TransGen.single hx)

theorem Acyclic.mono {r s : α → α → Prop} (h : Acyclic s) (hrs : ∀ x y, r x y → s x y) :
    Acyclic r :=
  fun x hx => h x (Relation.TransGen.mono hrs x x hx)

/-- Edges that all go up a rank close no cycle. -/
theorem acyclic_of_rank {r : α → α → Prop} (rank : α → ℕ) (h : ∀ x y, r x y → rank x < rank y) :
    Acyclic r := by
  have hup : ∀ x y, Relation.TransGen r x y → rank x < rank y := by
    intro x y hxy
    induction hxy with
    | single hxy => exact h _ _ hxy
    | tail _ hyz ih => exact ih.trans (h _ _ hyz)
  exact fun x hx => absurd (hup x x hx) (lt_irrefl _)

/-- A path that may use a fan of new edges out of `j` either uses none of them, or reaches
`j` and leaves the last of them towards its end by old edges only. -/
theorem transGen_fan {r r' : α → α → Prop} {j : α} {T : α → Prop}
    (hr' : ∀ x y, r' x y → r x y ∨ (x = j ∧ T y)) {x y : α} (h : Relation.TransGen r' x y) :
    Relation.TransGen r x y ∨
      (Relation.ReflTransGen r x j ∧ ∃ t, T t ∧ Relation.ReflTransGen r t y) := by
  induction h with
  | single hxy =>
    rcases hr' _ _ hxy with hold | ⟨rfl, ht⟩
    · exact Or.inl (Relation.TransGen.single hold)
    · exact Or.inr ⟨Relation.ReflTransGen.refl, _, ht, Relation.ReflTransGen.refl⟩
  | @tail z y _ hyz ih =>
    rcases hr' z y hyz with hold | ⟨hzj, ht⟩
    · rcases ih with hxy | ⟨hxj, t, ht, hty⟩
      · exact Or.inl (hxy.tail hold)
      · exact Or.inr ⟨hxj, t, ht, hty.tail hold⟩
    · -- the last edge is new: its source is `j`, reached by what came before
      have hxj : Relation.ReflTransGen r x j := by
        rcases ih with hxz | ⟨hxj, -, -⟩
        · exact hzj ▸ hxz.to_reflTransGen
        · exact hxj
      exact Or.inr ⟨hxj, y, ht, Relation.ReflTransGen.refl⟩

/-- **A fan of harmless edges keeps the graph acyclic.**  Each new edge leaves `j` and leads
to a vertex that does not reach `j`; the old graph is acyclic; so is the new one. -/
theorem acyclic_of_fan {r r' : α → α → Prop} {j : α} {T : α → Prop} (hr : Acyclic r)
    (hr' : ∀ x y, r' x y → r x y ∨ (x = j ∧ T y))
    (hT : ∀ t, T t → ¬ Relation.ReflTransGen r t j) : Acyclic r' := by
  intro x hx
  rcases transGen_fan hr' hx with hold | ⟨hxj, t, ht, htx⟩
  · exact hr x hold
  · exact hT t ht (htx.trans hxj)

/-! ## 2. Paths inside a set -/

/-- No path between two members of `S` leaves `S`. -/
def PathsInside (r : α → α → Prop) (S : α → Prop) : Prop :=
  ∀ a b c, S a → S b → Relation.TransGen r a c → Relation.TransGen r c b → S c

theorem PathsInside.mono {r s : α → α → Prop} {S : α → Prop} (h : PathsInside s S)
    (hrs : ∀ x y, r x y → s x y) : PathsInside r S := by
  intro a b c ha hb hac hcb
  exact h a b c ha hb (Relation.TransGen.mono hrs a c hac) (Relation.TransGen.mono hrs c b hcb)

/-- A vertex between two members, where the paths may be empty. -/
theorem PathsInside.mem_of_between {r : α → α → Prop} {S : α → Prop} (h : PathsInside r S)
    {a b c : α} (ha : S a) (hb : S b) (hac : Relation.ReflTransGen r a c)
    (hcb : Relation.ReflTransGen r c b) : S c := by
  rcases Relation.reflTransGen_iff_eq_or_transGen.mp hac with rfl | hac
  · exact ha
  rcases Relation.reflTransGen_iff_eq_or_transGen.mp hcb with rfl | hcb
  · exact hb
  exact h a b c ha hb hac hcb

/-- A path between two members is one of members. -/
theorem PathsInside.restrict {r : α → α → Prop} {S : α → Prop} (h : PathsInside r S) {a b : α}
    (ha : S a) (hb : S b) (hab : Relation.ReflTransGen r a b) :
    Relation.ReflTransGen (fun x y => r x y ∧ S x ∧ S y) a b := by
  induction hab using Relation.ReflTransGen.head_induction_on with
  | refl => exact Relation.ReflTransGen.refl
  | @head x y hxy hyb ih =>
    have hy : S y := h.mem_of_between ha hb (Relation.ReflTransGen.single hxy) hyb
    exact (ih hy).head ⟨hxy, ha, hy⟩

/-- An edge between two members lets no path leave. -/
theorem PathsInside.of_edge {r r' : α → α → Prop} {S : α → Prop} (h : PathsInside r S) {j u : α}
    (hj : S j) (hu : S u) (hr' : ∀ x y, r' x y → r x y ∨ (x = j ∧ y = u)) : PathsInside r' S := by
  intro a b c ha hb hac hcb
  -- what leads to `c` by old edges from a member, and from `c` to one
  have hfrom : ∃ a₀, S a₀ ∧ Relation.ReflTransGen r a₀ c := by
    rcases transGen_fan (T := (· = u)) hr' hac with hold | ⟨-, _, rfl, htc⟩
    · exact ⟨a, ha, hold.to_reflTransGen⟩
    · exact ⟨_, hu, htc⟩
  have hto : ∃ b₀, S b₀ ∧ Relation.ReflTransGen r c b₀ := by
    rcases transGen_fan (T := (· = u)) hr' hcb with hold | ⟨hcj, _⟩
    · exact ⟨b, hb, hold.to_reflTransGen⟩
    · exact ⟨j, hj, hcj⟩
  obtain ⟨a₀, ha₀, hac⟩ := hfrom
  obtain ⟨b₀, hb₀, hcb⟩ := hto
  exact h.mem_of_between ha₀ hb₀ hac hcb

/-! ## 3. Saturation -/

section Saturation

variable [DecidableEq α]

/-- The edge relation of an edge list. -/
def Edge (E : List (α × α)) (x y : α) : Prop := (x, y) ∈ E

/-- The successors of a set of vertices. -/
def succs (E : List (α × α)) (S : Finset α) : Finset α :=
  ((E.filter (fun e => e.1 ∈ S)).map Prod.snd).toFinset

/-- One round of the recursive query: keep what is there, add its successors. -/
def grow (E : List (α × α)) (S : Finset α) : Finset α := S ∪ succs E S

/-- The vertices one or more edges lead to from `x`: as many rounds as there are edges. -/
def reach (E : List (α × α)) (x : α) : Finset α :=
  (grow E)^[E.length] (succs E {x})

theorem mem_succs {E : List (α × α)} {S : Finset α} {y : α} :
    y ∈ succs E S ↔ ∃ x ∈ S, Edge E x y := by
  simp only [succs, List.mem_toFinset, List.mem_map, List.mem_filter, decide_eq_true_eq,
    Prod.exists, exists_eq_right, Edge]
  exact ⟨fun ⟨x, hE, hx⟩ => ⟨x, hx, hE⟩, fun ⟨x, hx, hE⟩ => ⟨x, hE, hx⟩⟩

theorem subset_grow (E : List (α × α)) (S : Finset α) : S ⊆ grow E S :=
  Finset.subset_union_left

/-- Every vertex an edge leads to: the bound on the size of a saturated set. -/
def targets (E : List (α × α)) : Finset α := (E.map Prod.snd).toFinset

theorem succs_subset_targets (E : List (α × α)) (S : Finset α) : succs E S ⊆ targets E := by
  intro y hy
  obtain ⟨x, -, hE⟩ := mem_succs.mp hy
  exact List.mem_toFinset.mpr (List.mem_map.mpr ⟨(x, y), hE, rfl⟩)

theorem card_targets_le (E : List (α × α)) : (targets E).card ≤ E.length :=
  (List.toFinset_card_le _).trans (by simp)

theorem iterate_subset_targets (E : List (α × α)) (x : α) (n : ℕ) :
    (grow E)^[n] (succs E {x}) ⊆ targets E := by
  induction n with
  | zero => exact succs_subset_targets E _
  | succ n ih =>
    rw [Function.iterate_succ_apply']
    exact Finset.union_subset ih (succs_subset_targets E _)

/-- A round that is not the last one adds a vertex. -/
theorem card_le_or_fixed (E : List (α × α)) (S : Finset α) (n : ℕ) :
    n ≤ ((grow E)^[n] S).card ∨ grow E ((grow E)^[n] S) = (grow E)^[n] S := by
  induction n with
  | zero => exact Or.inl (Nat.zero_le _)
  | succ n ih =>
    rw [Function.iterate_succ_apply']
    by_cases hfix : grow E ((grow E)^[n] S) = (grow E)^[n] S
    · exact Or.inr (by rw [hfix, hfix])
    · have hlt : ((grow E)^[n] S).card < (grow E ((grow E)^[n] S)).card :=
        Finset.card_lt_card ((subset_grow E _).ssubset_of_ne (Ne.symm hfix))
      rcases ih with hcard | hfix'
      · exact Or.inl (by omega)
      · exact absurd hfix' hfix

/-- After `E.length` rounds nothing is new. -/
theorem grow_reach (E : List (α × α)) (x : α) : grow E (reach E x) = reach E x := by
  rcases card_le_or_fixed E (succs E {x}) E.length with hcard | hfix
  · -- the set already holds every target, so a further round finds nothing
    have hsub := iterate_subset_targets E x E.length
    have heq : reach E x = targets E :=
      Finset.eq_of_subset_of_card_le hsub ((card_targets_le E).trans hcard)
    refine Finset.Subset.antisymm (Finset.union_subset (Finset.Subset.refl _) ?_)
      (subset_grow E _)
    rw [heq]
    exact succs_subset_targets E _
  · exact hfix

theorem transGen_of_mem_iterate {E : List (α × α)} {x : α} :
    ∀ {n : ℕ} {y : α}, y ∈ (grow E)^[n] (succs E {x}) → Relation.TransGen (Edge E) x y
  | 0, y, hy => by
    obtain ⟨z, hz, hE⟩ := mem_succs.mp hy
    rw [Finset.mem_singleton.mp hz] at hE
    exact Relation.TransGen.single hE
  | n + 1, y, hy => by
    rw [Function.iterate_succ_apply'] at hy
    rcases Finset.mem_union.mp hy with hold | hnew
    · exact transGen_of_mem_iterate hold
    · obtain ⟨z, hz, hE⟩ := mem_succs.mp hnew
      exact (transGen_of_mem_iterate hz).tail hE

/-- **Saturation decides reachability.** -/
theorem mem_reach_iff {E : List (α × α)} {x y : α} :
    y ∈ reach E x ↔ Relation.TransGen (Edge E) x y := by
  constructor
  · exact transGen_of_mem_iterate
  · intro h
    have hstart : succs E {x} ⊆ reach E x := by
      have hmono : ∀ n, succs E {x} ⊆ (grow E)^[n] (succs E {x}) := by
        intro n
        induction n with
        | zero => exact Finset.Subset.refl _
        | succ n ih =>
          rw [Function.iterate_succ_apply']
          exact ih.trans (subset_grow E _)
      exact hmono E.length
    induction h with
    | single hE => exact hstart (mem_succs.mpr ⟨x, Finset.mem_singleton_self x, hE⟩)
    | tail _ hE ih =>
      rw [← grow_reach]
      exact Finset.mem_union_right _ (mem_succs.mpr ⟨_, ih, hE⟩)

end Saturation

end PosseClient.Reachability
