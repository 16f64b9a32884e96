import FunctionGraph.Text.Blank
import Mathlib.Data.List.DropRight

/-!
# Blanks in typed text

Trimming takes blanks from the two ends and nothing else, so it is idempotent, and the text without any
blanks is the same before and after.
-/

namespace FunctionGraph.Text

variable {text blanks : List Char} {c : Char}

theorem trimStart_append (h : ∀ c ∈ blanks, isBlank c = true) (rest : List Char) :
    trimStart (blanks ++ rest) = trimStart rest :=
  List.dropWhile_append_of_pos h

theorem trimStart_cons_of_not_blank (h : isBlank c = false) (rest : List Char) :
    trimStart (c :: rest) = c :: rest :=
  List.dropWhile_cons_of_neg (Bool.eq_false_iff.mp h)

theorem exists_append_trimStart (text : List Char) :
    ∃ blanks, (∀ c ∈ blanks, isBlank c = true) ∧ blanks ++ trimStart text = text :=
  ⟨text.takeWhile isBlank, fun _ hc => List.mem_takeWhile_imp hc, List.takeWhile_append_dropWhile⟩

theorem mem_trimStart (hc : c ∈ text) (hblank : isBlank c = false) : c ∈ trimStart text := by
  obtain ⟨blanks, hblanks, happend⟩ := exists_append_trimStart text
  have hnot : c ∉ blanks := fun h => by simp [hblanks c h] at hblank
  rw [← happend, List.mem_append] at hc
  exact hc.resolve_left hnot

theorem trimStart_trimEnd_trimStart (text : List Char) :
    trimStart (trimEnd (trimStart text)) = trimEnd (trimStart text) := by
  rw [trimStart, List.dropWhile_eq_self_iff]
  intro hpos
  -- What is left after trimming the end begins as before, and that was no blank.
  have hbegins : trimEnd (text.dropWhile isBlank) <+: text.dropWhile isBlank :=
    List.rdropWhile_prefix _ _
  have hpos' := hpos.trans_le hbegins.length_le
  have hsame := hbegins.getElem hpos
  have hfirst := List.dropWhile_get_zero_not isBlank text hpos'
  rw [List.get_eq_getElem] at hfirst
  exact fun hblank => hfirst (hsame ▸ hblank)

/-- Trimmed text has nothing left to trim. -/
theorem trim_trim (text : List Char) : trim (trim text) = trim text := by
  have hend : trimEnd (trimEnd (trimStart text)) = trimEnd (trimStart text) :=
    List.rdropWhile_idempotent _ _
  rw [trim, trim, trimStart_trimEnd_trimStart, hend]

/-! ### Text without blanks -/

theorem dropBlanks_append (left right : List Char) :
    dropBlanks (left ++ right) = dropBlanks left ++ dropBlanks right :=
  List.filter_append _ _

theorem dropBlanks_eq_nil (h : ∀ c ∈ blanks, isBlank c = true) : dropBlanks blanks = [] := by
  rw [dropBlanks, List.filter_eq_nil_iff]
  intro c hc
  simp [h c hc]

theorem dropBlanks_trimStart (text : List Char) : dropBlanks (trimStart text) = dropBlanks text := by
  obtain ⟨blanks, hblanks, happend⟩ := exists_append_trimStart text
  conv_rhs => rw [← happend, dropBlanks_append, dropBlanks_eq_nil hblanks, List.nil_append]

theorem dropBlanks_trimEnd (text : List Char) : dropBlanks (trimEnd text) = dropBlanks text := by
  have hreverse : dropBlanks (trimStart text.reverse) = dropBlanks text.reverse :=
    dropBlanks_trimStart _
  rw [dropBlanks, dropBlanks, List.filter_reverse] at hreverse
  rw [dropBlanks, trimEnd, List.filter_reverse]
  exact List.reverse_eq_iff.mpr hreverse

theorem dropBlanks_trim (text : List Char) : dropBlanks (trim text) = dropBlanks text := by
  rw [trim, dropBlanks_trimEnd, dropBlanks_trimStart]

theorem trim_eq_nil_iff (text : List Char) : trim text = [] ↔ dropBlanks text = [] := by
  constructor
  · intro h
    rw [← dropBlanks_trim, h]
    rfl
  · intro h
    have hblank : ∀ c ∈ text, isBlank c = true := by simpa [dropBlanks] using h
    have hstart : trimStart text = [] := List.dropWhile_eq_nil_iff.mpr hblank
    rw [trim, hstart]
    rfl

end FunctionGraph.Text
