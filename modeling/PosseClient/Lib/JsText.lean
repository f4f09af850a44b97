/-
# Texts as JavaScript reads them

The string operations of the language that the modelled functions use: `trim` with the white space
it removes, lengths in UTF-16 code units, and the two replacements that clean a path.
-/
import Mathlib

namespace PosseClient

/-- The white space `String.prototype.trim` removes. -/
def isTrimmed (c : Char) : Bool :=
  (0x09 ≤ c.toNat && c.toNat ≤ 0x0D) || (0x2000 ≤ c.toNat && c.toNat ≤ 0x200A) ||
    c.toNat ∈ [0x20, 0xA0, 0x1680, 0x2028, 0x2029, 0x202F, 0x205F, 0x3000, 0xFEFF]

/-- `trim`. -/
def trim (s : String) : String :=
  String.ofList (((s.toList.dropWhile isTrimmed).reverse.dropWhile isTrimmed).reverse)

/-- `trim` cuts nothing off a trimmed text. -/
theorem trim_trim (s : String) : trim (trim s) = trim s := by
  have hlist : ∀ l : List Char,
      (((l.dropWhile isTrimmed).rdropWhile isTrimmed).dropWhile isTrimmed).rdropWhile isTrimmed =
        (l.dropWhile isTrimmed).rdropWhile isTrimmed := by
    intro l
    have hfront : ((l.dropWhile isTrimmed).rdropWhile isTrimmed).dropWhile isTrimmed =
        (l.dropWhile isTrimmed).rdropWhile isTrimmed := by
      have hpre := List.rdropWhile_prefix isTrimmed
        (l.dropWhile isTrimmed)
      rw [List.dropWhile_eq_self_iff]
      intro hpos
      rw [hpre.getElem hpos]
      exact List.dropWhile_get_zero_not isTrimmed l (lt_of_lt_of_le hpos hpre.length_le)
    rw [hfront, List.rdropWhile_idempotent]
  have hform : ∀ s : String, trim s =
      String.ofList ((s.toList.dropWhile isTrimmed).rdropWhile isTrimmed) := fun _ => rfl
  rw [hform, hform, String.toList_ofList, hlist]

/-- A text without blanks is trimmed. -/
theorem trim_eq_self {s : String} (h : ∀ c ∈ s.toList, isTrimmed c = false) : trim s = s := by
  have hdrop : ∀ l : List Char, (∀ c ∈ l, isTrimmed c = false) → l.dropWhile isTrimmed = l := by
    intro l hl
    rw [List.dropWhile_eq_self_iff]
    intro hpos
    simp [hl _ (List.getElem_mem hpos)]
  unfold trim
  rw [hdrop _ h, hdrop _ (fun c hc => h c (List.mem_reverse.mp hc)), List.reverse_reverse,
    String.ofList_toList]

/-- The length of a text in UTF-16 code units. -/
def utf16Length (s : String) : ℕ :=
  (s.toList.map (fun c => if c.toNat < 0x10000 then 1 else 2)).sum

/-- `replace(/\/{2,}/g, "/")`. -/
def collapseSlashes (cs : List Char) : List Char :=
  cs.foldr (fun c rest => if c = '/' ∧ rest.head? = some '/' then rest else c :: rest) []

/-- Cut the characters that satisfy `p` off the end. -/
def dropEndWhile (p : Char → Bool) (cs : List Char) : List Char :=
  (cs.reverse.dropWhile p).reverse

end PosseClient
