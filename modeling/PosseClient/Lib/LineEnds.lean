/-
# Line ends

The replacements that the modelled functions use on line ends, in UTF-16 code units: 10 is the line
feed and 13 the carriage return.
-/
import PosseClient.Lib.Json

namespace PosseClient

open Json

/-- `text.replace(/\r\n/g, "\n")`. -/
def crlfToLf : Utf16 → Utf16
  | [] => []
  | 13 :: 10 :: rest => 10 :: crlfToLf rest
  | u :: rest => u :: crlfToLf rest

/-- `text.replace(/\n/g, eol)`, which is also `text.split("\n").join(eol)`. -/
def lfTo (eol text : Utf16) : Utf16 := text.flatMap fun u => if u = 10 then eol else [u]

/-- `text.replace(/\n$/, "")`. -/
def dropFinalLf (text : Utf16) : Utf16 := if text.getLast? = some 10 then text.dropLast else text

theorem crlfToLf_ne_nil {text : Utf16} (h : text ≠ []) : crlfToLf text ≠ [] := by
  unfold crlfToLf
  split
  · exact absurd rfl h
  · simp
  · simp

theorem lfTo_ne_nil {eol text : Utf16} (heol : eol ≠ []) (h : text ≠ []) : lfTo eol text ≠ [] := by
  intro hnil
  obtain ⟨u, rest, rfl⟩ := List.exists_cons_of_ne_nil h
  rw [lfTo, List.flatMap_eq_nil_iff] at hnil
  have hu := hnil u List.mem_cons_self
  split_ifs at hu
  exact heol hu

end PosseClient
