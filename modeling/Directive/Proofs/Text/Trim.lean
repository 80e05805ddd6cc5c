import Directive.Text.Blank
import Mathlib.Data.List.TakeWhile

/-!
# Texts without the blanks around them

Trimming a text takes off its blank ends and nothing else. Main facts:

* `exists_eq_trim`: a text is its trimmed text between blank characters.
* `trim_append_append`: blank characters around a text make no difference to its trimmed text.
-/

namespace Directive.Text

/-- The space is a blank text. -/
theorem isBlank_of_mem_space {c : Char} (h : c ∈ [' ']) : isBlank c = true := by
  obtain rfl := List.mem_singleton.mp h
  rfl

/-- A blank character is no pipe. -/
theorem ne_pipe_of_isBlank {c : Char} (h : isBlank c = true) : c ≠ '|' := by
  rintro rfl
  cases h

/-- A text is its trimmed text between blank characters. -/
theorem exists_eq_trim (text : List Char) :
    ∃ lead trail, text = lead ++ (trim text ++ trail)
      ∧ (∀ c ∈ lead, isBlank c = true) ∧ ∀ c ∈ trail, isBlank c = true := by
  refine ⟨text.takeWhile isBlank, ((trimStart text).reverse.takeWhile isBlank).reverse, ?_,
    fun c => List.mem_takeWhile_imp, ?_⟩
  · have hend : trim text ++ ((trimStart text).reverse.takeWhile isBlank).reverse
        = trimStart text := by
      unfold trim trimEnd
      rw [← List.reverse_append, List.takeWhile_append_dropWhile, List.reverse_reverse]
    rw [hend, trimStart, List.takeWhile_append_dropWhile]
  · intro c hc
    exact List.mem_takeWhile_imp (List.mem_reverse.mp hc)

/-- Blank characters in front make no difference. -/
theorem trim_append_of_blanks {lead : List Char} (h : ∀ c ∈ lead, isBlank c = true)
    (text : List Char) : trim (lead ++ text) = trim text := by
  unfold trim trimStart
  rw [List.dropWhile_append_of_pos h]

/-- Blank characters at the end make no difference. -/
theorem trim_blanks_append {trail : List Char} (h : ∀ c ∈ trail, isBlank c = true)
    (text : List Char) : trim (text ++ trail) = trim text := by
  have hend (kept : List Char) : trimEnd (kept ++ trail) = trimEnd kept := by
    unfold trimEnd
    rw [List.reverse_append, List.dropWhile_append_of_pos]
    simpa using h
  -- if the text in front is blank as well, nothing is left of either
  have hnone : trail.dropWhile isBlank = [] := List.dropWhile_eq_nil_iff.mpr h
  unfold trim trimStart
  rw [List.dropWhile_append]
  split
  case isTrue hempty =>
    rw [hnone, List.isEmpty_iff.mp hempty]
  case isFalse =>
    exact hend _

/-- Blank characters around a text make no difference. -/
theorem trim_append_append {lead trail : List Char} (hlead : ∀ c ∈ lead, isBlank c = true)
    (htrail : ∀ c ∈ trail, isBlank c = true) (text : List Char) :
    trim (lead ++ (text ++ trail)) = trim text := by
  rw [trim_append_of_blanks hlead, trim_blanks_append htrail]

/-- Trimming a text twice is trimming it once. -/
@[simp] theorem trim_trim (text : List Char) : trim (trim text) = trim text := by
  obtain ⟨lead, trail, htext, hlead, htrail⟩ := exists_eq_trim text
  calc
    trim (trim text) = trim (lead ++ (trim text ++ trail)) :=
      (trim_append_append hlead htrail _).symm
    _ = trim text := by rw [← htext]

end Directive.Text
