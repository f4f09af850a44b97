/-
# Runs of line edits

The runs of lines that touch, from line edits that do not overlap.  A run is read as one line edit;
it has a span whenever its items have one, so that merging a run never fails.

* `runs_spec`: the runs are the lines in their order, cut where they do not touch.
* `runEdit_ordered`, `runEdit_inRange`: a run as a line edit.
-/
import PosseClient.Lib.KeySort
import PosseClient.Toolkit.LineSpans

namespace PosseClient

open Json KeySort

variable {α β : Type*} {body : Utf16}

/-! ## 1. The fold -/

/-- One edit lies before another. -/
def LineEdit.Before (a b : LineEdit) : Prop := a.last < b.first

/-- One edit lies before another, and they touch. -/
def LineEdit.Touches (a b : LineEdit) : Prop := a.last + 1 = b.first

/-- One edit lies before another, with a line between. -/
def LineEdit.Apart (a b : LineEdit) : Prop := a.last + 1 < b.first

/-- **What the runs of items are**: the items in order; in a run each touches the next, and runs
are apart. -/
structure RunsOf (items : List (α × LineEdit)) (runs : List (List (α × LineEdit))) : Prop where
  flatten : runs.flatten = items
  ne_nil : ∀ run ∈ runs, run ≠ []
  touch : ∀ run ∈ runs, run.IsChain fun a b => a.2.Touches b.2
  apart : runs.Pairwise fun run run' => ∀ a ∈ run, ∀ b ∈ run', a.2.Apart b.2

/-- One more item behind the others. -/
theorem RunsOf.pushRun {items : List (α × LineEdit)} {runs : List (List (α × LineEdit))}
    (h : RunsOf items runs) {item : α × LineEdit} (ho : ∀ a ∈ items, a.2.Ordered)
    (hpair : (items ++ [item]).Pairwise fun a b => a.2.Before b.2) :
    RunsOf (items ++ [item]) (pushRun runs item) := by
  obtain ⟨hitems, -, hitem⟩ := List.pairwise_append.mp hpair
  rcases List.eq_nil_or_concat' runs with rfl | ⟨init, run, rfl⟩
  · obtain rfl : items = [] := by simpa using h.flatten.symm
    exact ⟨rfl, by simp [PosseClient.pushRun], by simp [PosseClient.pushRun],
      List.pairwise_singleton _ _⟩
  · have hrun := h.ne_nil run (by simp)
    rcases List.eq_nil_or_concat' run with rfl | ⟨front, last, rfl⟩
    · exact absurd rfl hrun
    have hmem : ∀ a ∈ init.flatten ++ (front ++ [last]), a ∈ items := by
      intro a ha
      rw [← h.flatten]
      simpa using ha
    have hlast : last.2.Before item.2 := hitem last (hmem last (by simp)) item (by simp)
    have hbefore : ∀ a ∈ init.flatten ++ front, a.2.Before last.2 := by
      intro a ha
      rw [← h.flatten, List.flatten_append, List.flatten_singleton, ← List.append_assoc] at hitems
      exact (List.pairwise_append.mp hitems).2.2 a ha last (by simp)
    have hlastOrdered := (ho last (hmem last (by simp))).first_le
    obtain ⟨hinit, -, happart⟩ := List.pairwise_append.mp h.apart
    have hpush : PosseClient.pushRun (init ++ [front ++ [last]]) item =
        if last.2.last + 1 = item.2.first then init ++ [front ++ [last] ++ [item]]
        else init ++ [front ++ [last]] ++ [[item]] := by
      simp [PosseClient.pushRun]
    rw [hpush]
    unfold LineEdit.Before at hlast hbefore
    split_ifs with htouch
    · refine ⟨by simp [← h.flatten], ?_, ?_, List.pairwise_append.mpr
        ⟨hinit, List.pairwise_singleton _ _, ?_⟩⟩
      · intro r hr
        rcases List.mem_append.mp hr with hr | hr
        · exact h.ne_nil r (List.mem_append_left _ hr)
        · obtain rfl := List.mem_singleton.mp hr
          simp
      · intro r hr
        rcases List.mem_append.mp hr with hr | hr
        · exact h.touch r (List.mem_append_left _ hr)
        · obtain rfl := List.mem_singleton.mp hr
          refine List.isChain_append.mpr ⟨h.touch _ (by simp), List.isChain_singleton _, ?_⟩
          intro x hx y hy
          obtain rfl : last = x := by simpa using hx
          obtain rfl : item = y := by simpa using hy
          exact htouch
      · intro r hr r' hr' a ha b hb
        obtain rfl := List.mem_singleton.mp hr'
        have hold : ∀ b ∈ front ++ [last], a.2.Apart b.2 :=
          happart r hr (front ++ [last]) (by simp) a ha
        rcases List.mem_append.mp hb with hb | hb
        · exact hold b hb
        · obtain rfl := List.mem_singleton.mp hb
          have := hold last (by simp)
          unfold LineEdit.Apart at *
          omega
    · refine ⟨by simp [← h.flatten], ?_, ?_, List.pairwise_append.mpr
        ⟨h.apart, List.pairwise_singleton _ _, ?_⟩⟩
      · intro r hr
        rcases List.mem_append.mp hr with hr | hr
        · exact h.ne_nil r hr
        · obtain rfl := List.mem_singleton.mp hr
          simp
      · intro r hr
        rcases List.mem_append.mp hr with hr | hr
        · exact h.touch r hr
        · obtain rfl := List.mem_singleton.mp hr
          exact List.isChain_singleton _
      · intro r hr r' hr' a ha b hb
        obtain rfl := List.mem_singleton.mp hr'
        obtain rfl := List.mem_singleton.mp hb
        have hflat : a ∈ init.flatten ++ front ∨ a = last := by
          have ha' : a ∈ (init ++ [front ++ [last]]).flatten :=
            List.mem_flatten.mpr ⟨r, hr, ha⟩
          simpa [or_assoc] using ha'
        unfold LineEdit.Apart
        rcases hflat with ha | rfl
        · have := hbefore a ha
          omega
        · omega

/-- **The runs of the items in their order.** -/
theorem runs_spec {items : List (α × LineEdit)} (ho : ∀ a ∈ items, a.2.Ordered)
    (hpair : items.Pairwise fun a b => a.2.Before b.2) :
    RunsOf items (items.foldl pushRun []) := by
  induction items using List.reverseRecOn with
  | nil => exact ⟨rfl, by simp, by simp, .nil⟩
  | append_singleton items item ih =>
    rw [List.foldl_append, List.foldl_cons, List.foldl_nil]
    have ho' : ∀ a ∈ items, a.2.Ordered := fun a ha => ho a (List.mem_append_left _ ha)
    exact (ih ho' (List.pairwise_append.mp hpair).1).pushRun ho' hpair

/-! ## 2. A run as one line edit -/

variable {run : List LineEdit}

theorem runEdit_first {edit : LineEdit} : (runEdit (edit :: run)).first = edit.first := rfl

theorem runEdit_last {edit : LineEdit} : (runEdit (run ++ [edit])).last = edit.last := by
  simp [runEdit]

/-- Lines that touch one after the other do not go back. -/
theorem first_le_of_chain {a b : LineEdit} (htouch : (a :: run).IsChain LineEdit.Touches)
    (ho : ∀ c ∈ a :: run, c.Ordered) (hb : b ∈ a :: run) : a.first ≤ b.first := by
  induction run generalizing a with
  | nil =>
    obtain rfl := List.mem_singleton.mp hb
    exact le_rfl
  | cons c run ih =>
    obtain ⟨hac, hrest⟩ := List.isChain_cons_cons.mp htouch
    rcases List.mem_cons.mp hb with rfl | hb
    · exact le_rfl
    · have hle := ih hrest (fun d hd => ho d (List.mem_cons_of_mem _ hd)) hb
      have := (ho a List.mem_cons_self).first_le
      unfold LineEdit.Touches at hac
      omega

theorem runEdit_ordered (hne : run ≠ []) (htouch : run.IsChain LineEdit.Touches)
    (ho : ∀ c ∈ run, c.Ordered) : (runEdit run).Ordered := by
  obtain ⟨a, rest, rfl⟩ := List.exists_cons_of_ne_nil hne
  obtain ⟨front, b, hb⟩ : ∃ front b, a :: rest = front ++ [b] :=
    (List.eq_nil_or_concat' (a :: rest)).resolve_left hne
  have hfirst := first_le_of_chain htouch ho (b := b) (by rw [hb]; simp)
  have hlast : (runEdit (a :: rest)).last = b.last := by rw [hb, runEdit_last]
  have hbo := (ho b (by rw [hb]; simp)).first_le
  exact ⟨(ho a List.mem_cons_self).one_le, by rw [hlast, runEdit_first]; omega⟩

/-- A run whose items are in the content is in the content. -/
theorem runEdit_inRange (hlen : 1 < run.length) (htouch : run.IsChain LineEdit.Touches)
    (ho : ∀ c ∈ run, c.Ordered) (hin : ∀ c ∈ run, c.InRange body) :
    (runEdit run).last ≤ (lineStarts body).length := by
  obtain ⟨front, b, rfl⟩ := (List.eq_nil_or_concat' run).resolve_left (by rintro rfl; simp at hlen)
  rw [runEdit_last]
  obtain ⟨front, a, rfl⟩ := (List.eq_nil_or_concat' front).resolve_left (by
    rintro rfl
    simp at hlen)
  have hab : a.Touches b := by
    rw [List.append_assoc] at htouch
    have hpair := (List.isChain_append.mp htouch).2.1
    exact (List.isChain_cons_cons.mp hpair).1
  have ha := ho a (by simp)
  rcases hin b (by simp) with hle | ⟨-, hone, -⟩
  · exact hle
  · have h1 := ha.one_le
    have h2 := ha.first_le
    unfold LineEdit.Touches at hab
    omega

end PosseClient
