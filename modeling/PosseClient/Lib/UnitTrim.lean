/-
# Trimmed texts

`trim` on texts in UTF-16 code units.

* `exists_trimUnits`: what `trim` cuts off is white space.
* `trimUnits_between`: white space around a text makes no difference.
-/
import PosseClient.Lib.Json

namespace PosseClient

open Json

/-- The white space of `\s`, which is also what `trim` removes. -/
def isSpaceUnit (u : ℕ) : Bool :=
  (9 ≤ u && u ≤ 13) || (8192 ≤ u && u ≤ 8202) ||
    u ∈ [32, 160, 5760, 8232, 8233, 8239, 8287, 12288, 65279]

/-- `text.trim()`. -/
def trimUnits (text : Utf16) : Utf16 := (text.dropWhile isSpaceUnit).rdropWhile isSpaceUnit

/-- Only white space. -/
def AllSpace (text : Utf16) : Prop := ∀ u ∈ text, isSpaceUnit u = true

theorem exists_trimUnits (text : Utf16) :
    ∃ before after, AllSpace before ∧ AllSpace after ∧
      text = before ++ (trimUnits text ++ after) := by
  refine ⟨text.takeWhile isSpaceUnit, (text.dropWhile isSpaceUnit).rtakeWhile isSpaceUnit,
    ?_, ?_, ?_⟩
  · exact fun u hu => List.mem_takeWhile_imp hu
  · exact fun u hu => List.mem_rtakeWhile_imp hu
  · rw [trimUnits, List.rdropWhile_append_rtakeWhile, List.takeWhile_append_dropWhile]

theorem dropWhile_space_append {before : Utf16} (h : AllSpace before) (text : Utf16) :
    (before ++ text).dropWhile isSpaceUnit = text.dropWhile isSpaceUnit := by
  rw [List.dropWhile_append, List.dropWhile_eq_nil_iff.mpr h]
  rfl

theorem rdropWhile_append_space {after : Utf16} (h : AllSpace after) (text : Utf16) :
    (text ++ after).rdropWhile isSpaceUnit = text.rdropWhile isSpaceUnit := by
  unfold List.rdropWhile
  rw [List.reverse_append, dropWhile_space_append fun u hu => h u (List.mem_reverse.mp hu)]

/-- **White space around a text** makes no difference to its trimmed text. -/
theorem trimUnits_between {before after : Utf16} (hbefore : AllSpace before)
    (hafter : AllSpace after) (text : Utf16) :
    trimUnits (before ++ (text ++ after)) = trimUnits text := by
  unfold trimUnits
  rw [dropWhile_space_append hbefore, List.dropWhile_append]
  split
  case isTrue hnil =>
    have hnil : text.dropWhile isSpaceUnit = [] := List.isEmpty_iff.mp hnil
    rw [hnil, List.dropWhile_eq_nil_iff.mpr hafter]
  case isFalse => exact rdropWhile_append_space hafter _

theorem trimUnits_trimUnits (text : Utf16) : trimUnits (trimUnits text) = trimUnits text := by
  obtain ⟨before, after, hbefore, hafter, htext⟩ := exists_trimUnits text
  conv_rhs => rw [htext]
  exact (trimUnits_between hbefore hafter _).symm

end PosseClient
