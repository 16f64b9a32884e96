import FunctionGraph.Proofs.Formula.Assignment
import FunctionGraph.Proofs.Text.Lowercase

/-!
# Notation of a formula

Blanks, capitals and the choice of signs do not change what a formula means. The text is trimmed, put in
lowercase, freed of an assignment, of its blanks and of the other signs in this order, and none of these
steps makes or hides something for a later one: all that counts is the text folded character by character.
Characters foreign to formulas are the exception, for their lowercase may depend on their neighbours, but
they stay foreign and the text is refused either way.
-/

namespace FunctionGraph

namespace Text

variable {text : List Char} {c : Char}

theorem isBlank_lowerLetter (c : Char) : isBlank (lowerLetter c) = isBlank c := by
  unfold lowerLetter
  split <;> rfl

theorem dropBlanks_map_lowerLetter (text : List Char) :
    dropBlanks (text.map lowerLetter) = (dropBlanks text).map lowerLetter := by
  rw [dropBlanks, List.filter_map]
  exact congrArg _ (List.filter_congr fun c _ => by rw [Function.comp, isBlank_lowerLetter])

theorem isBlank_of_foreign (h : isPlain c = false) : isBlank c = false := by
  rw [isPlain, plainRanges, inRanges, List.any_append, Bool.or_eq_false_iff] at h
  exact h.1

end Text

namespace Formula

open Text (HasForeign)

variable {text : List Char} {c : Char}

/-! ### Foreign characters -/

theorem spell_of_foreign (h : Text.isPlain c = false) : spell c = [c] := by
  unfold spell
  split
  · exact absurd h (by decide)
  · exact absurd h (by decide)
  · exact absurd h (by decide)
  · rfl

theorem hasForeign_spelled (h : HasForeign text) : HasForeign (spelled text) := by
  obtain ⟨c, hc, hforeign⟩ := h
  exact ⟨c, mem_spelled hc (Text.isBlank_of_foreign hforeign) (spell_of_foreign hforeign), hforeign⟩

/-- Only blanks and the signs of an assignment are dropped. -/
theorem mem_dropAssignment (hc : c ∈ text) (hblank : Text.isBlank c = false) (hy : c ≠ 'y')
    (hsign : c ≠ '=') : c ∈ dropAssignment text := by
  rcases dropAssignment_eq_or text with hsame | ⟨before, after, ⟨blanks, hblanks, rfl⟩, hdrop⟩
  · rwa [hsame]
  · have hnot : c ∉ blanks := fun h => by simp [hblanks c h] at hblank
    have hsides : c ∈ before ∨ c ∈ after := by simpa [hy, hsign, hnot] using hc
    rw [hdrop, List.mem_append]
    exact hsides.imp_right fun hafter => Text.mem_trimStart hafter hblank

theorem hasForeign_dropAssignment (h : HasForeign text) : HasForeign (dropAssignment text) := by
  obtain ⟨c, hc, hforeign⟩ := h
  have hy : c ≠ 'y' := by
    rintro rfl
    exact absurd hforeign (by decide)
  have hsign : c ≠ '=' := by
    rintro rfl
    exact absurd hforeign (by decide)
  exact ⟨c, mem_dropAssignment hc (Text.isBlank_of_foreign hforeign) hy hsign, hforeign⟩

theorem isPlain_of_isDigit (h : isDigit c = true) : Text.isPlain c = true := by
  have hrange : 0x2D ≤ c.toNat ∧ c.toNat ≤ 0x39 := by
    simp only [isDigit, Bool.and_eq_true, decide_eq_true_eq] at h
    exact ⟨le_trans (by decide) (show 0x30 ≤ c.toNat from h.1), h.2⟩
  rw [Text.isPlain, Text.inRanges_iff]
  exact ⟨(0x2D, 0x39), by decide, hrange⟩

theorem isPlain_of_isAllowed (h : isAllowed c = true) : Text.isPlain c = true := by
  simp only [isAllowed, isNumeric, Bool.or_eq_true, beq_iff_eq] at h
  rcases h with (((((((h | rfl) | rfl) | rfl) | rfl) | rfl) | rfl) | rfl) | rfl
  · exact isPlain_of_isDigit h
  all_goals decide

theorem accepts_of_hasForeign (h : HasForeign text) : accepts text = false := by
  obtain ⟨c, hc, hforeign⟩ := h
  by_contra haccepts
  rw [Bool.not_eq_false] at haccepts
  rw [isPlain_of_isAllowed (isAllowed_of_accepts haccepts hc)] at hforeign
  cases hforeign

/-! ### Folded text -/

/-- The text with its blanks deleted, its two letters in lowercase and one spelling for each operation. -/
def folded (text : List Char) : List Char :=
  ((Text.dropBlanks text).map Text.lowerLetter).flatMap spell

theorem folded_eq_spelled (text : List Char) : folded text = spelled (text.map Text.lowerLetter) := by
  rw [spelled, Text.dropBlanks_map_lowerLetter]
  rfl

theorem folded_trim (text : List Char) : folded (Text.trim text) = folded text := by
  rw [folded, Text.dropBlanks_trim]
  rfl

theorem spell_ne_nil (c : Char) : spell c ≠ [] := by
  unfold spell
  split <;> exact List.cons_ne_nil _ _

theorem folded_eq_nil_iff (text : List Char) : folded text = [] ↔ Text.trim text = [] := by
  rw [Text.trim_eq_nil_iff, folded, List.flatMap_eq_nil_iff]
  constructor
  · intro h
    by_contra hne
    obtain ⟨c, hc⟩ := List.exists_mem_of_ne_nil _ hne
    exact spell_ne_nil _ (h _ (List.mem_map_of_mem hc))
  · intro h
    simp [h]

/-! ### The cut in a folded text -/

theorem spelled_cons_of_blank (h : Text.isBlank c = true) (rest : List Char) :
    spelled (c :: rest) = spelled rest := by
  rw [spelled, Text.dropBlanks, List.filter_cons_of_neg (by simp [h])]
  rfl

theorem spelled_cons_of_not_blank (h : Text.isBlank c = false) (rest : List Char) :
    spelled (c :: rest) = spell c ++ spelled rest := by
  rw [spelled, Text.dropBlanks, List.filter_cons_of_pos (by simp [h]), List.flatMap_cons]
  rfl

theorem not_mem_spell {d : Char} (hd : d ≠ '*' ∧ d ≠ '/') (hc : c ≠ d) : d ∉ spell c := by
  unfold spell
  split <;> simp [hd, hc.symm]

theorem isBlank_of_mem_spelled (hc : c ∈ spelled text) : Text.isBlank c = false := by
  obtain ⟨d, hd, hc⟩ := List.mem_flatMap.mp hc
  have hblank : Text.isBlank d = false := by simpa using (List.mem_filter.mp hd).2
  unfold spell at hc
  split at hc <;> simp at hc <;> subst hc
  · decide
  · decide
  · decide
  · exact hblank

theorem trimStart_spelled (text : List Char) : Text.trimStart (spelled text) = spelled text := by
  rw [Text.trimStart, List.dropWhile_eq_self_iff]
  intro hpos
  simp [isBlank_of_mem_spelled (List.getElem_mem hpos)]

theorem AssignsBetween.spelled {before after : List Char} (h : AssignsBetween text before after) :
    AssignsBetween (spelled text) (spelled before) (spelled after) := by
  obtain ⟨blanks, hblanks, rfl⟩ := h
  refine ⟨[], fun c hc => absurd hc List.not_mem_nil, ?_⟩
  have hnil : Formula.spelled blanks = [] := by
    rw [Formula.spelled, Text.dropBlanks_eq_nil hblanks]
    rfl
  rw [spelled_append, spelled_cons_of_not_blank (by decide), spelled_append, hnil,
    spelled_cons_of_not_blank (by decide)]
  rfl

/-- No other sign is spelled as the sign of an assignment. -/
theorem head?_trimStart_of_spelled (h : (spelled text).head? = some '=') :
    (Text.trimStart text).head? = some '=' := by
  induction text with
  | nil => exact h
  | cons c rest ih =>
    cases hblank : Text.isBlank c with
    | true =>
      rw [spelled_cons_of_blank hblank] at h
      rw [Text.trimStart, List.dropWhile_cons_of_pos hblank]
      exact ih h
    | false =>
      rw [Text.trimStart_cons_of_not_blank hblank]
      rw [spelled_cons_of_not_blank hblank, List.head?_append_of_ne_nil _ (spell_ne_nil c)] at h
      by_contra hne
      have hc : c ≠ '=' := fun heq => hne (by rw [heq]; rfl)
      exact not_mem_spell (by decide) hc (List.mem_of_mem_head? h)

/-- An assignment is found at the same place before and after the blanks are deleted, and deleting them
brings none together that was apart. -/
theorem spelled_dropAssignment (text : List Char) :
    spelled (dropAssignment text) = dropAssignment (spelled text) := by
  induction text with
  | nil => rfl
  | cons c rest ih =>
    by_cases hy : c = 'y'
    · subst hy
      -- Only behind a `y` does the cut look further than one character.
      rcases assignsBetween_or rest with ⟨after, hassigned⟩ | hsign
      · rw [hassigned.dropAssignment_eq List.not_mem_nil,
          hassigned.spelled.dropAssignment_eq List.not_mem_nil, trimStart_spelled,
          List.nil_append, spelled_trimStart]
        rfl
      · have hsign' : (Text.trimStart (spelled rest)).head? ≠ some '=' := by
          rw [trimStart_spelled]
          exact fun h => hsign (head?_trimStart_of_spelled h)
        rw [dropAssignment_unassigned hsign, spelled_cons_of_not_blank (by decide),
          spelled_cons_of_not_blank (by decide), ih]
        exact (dropAssignment_unassigned hsign').symm
    · rw [dropAssignment_cons_of_ne hy]
      cases hblank : Text.isBlank c with
      | true => rw [spelled_cons_of_blank hblank, spelled_cons_of_blank hblank, ih]
      | false =>
        rw [spelled_cons_of_not_blank hblank, spelled_cons_of_not_blank hblank,
          dropAssignment_append (not_mem_spell (by decide) hy), ih]

/-! ### Compiling a folded text -/

/-- What a text that folds to this compiles to. -/
def compileFolded (text : List Char) : Except Rejection Formula :=
  if text = [] then .error .empty
  else if accepts (dropAssignment text) then
    .ok ⟨dropAssignment text, readExpr (dropAssignment text)⟩
  else .error .invalid

/-- The canonical form can be had from the folded text, unless both are refused. -/
theorem canonical_cases (text : List Char) :
    canonical text = dropAssignment (folded text) ∨
      accepts (canonical text) = false ∧ accepts (dropAssignment (folded text)) = false := by
  have hcanonical : canonical text = spelled (dropAssignment (Text.lower text)) := rfl
  rw [hcanonical, folded_eq_spelled]
  rcases Text.lower_cases text with hlower | ⟨hlower, hletters⟩
  · rw [hlower, spelled_dropAssignment]
    exact Or.inl rfl
  · exact Or.inr
      ⟨accepts_of_hasForeign (hasForeign_spelled (hasForeign_dropAssignment hlower)),
        accepts_of_hasForeign (hasForeign_dropAssignment (hasForeign_spelled hletters))⟩

theorem compile_eq_compileFolded (text : String) :
    compile text = compileFolded (folded text.toList) := by
  have hempty : (Text.trim text.toList).isEmpty = true ↔ folded text.toList = [] := by
    rw [List.isEmpty_iff, folded_eq_nil_iff]
  have hcases := canonical_cases (Text.trim text.toList)
  rw [folded_trim] at hcases
  rw [compile, compileFolded]
  refine if_congr hempty rfl ?_
  rcases hcases with hsame | ⟨hrefused, hrefused'⟩
  · rw [hsame]
  · rw [hrefused, hrefused']
    rfl

/-- **Notation does not matter.** Two texts that are the same once folded are both empty, or both
refused, or are formulas that agree at every `x`, in their value or in their error. -/
theorem compile_congr_of_folded {s t : String} (h : folded s.toList = folded t.toList) :
    (compile s = .error .empty ∧ compile t = .error .empty) ∨
      (compile s = .error .invalid ∧ compile t = .error .invalid) ∨
      ∃ f g, compile s = .ok f ∧ compile t = .ok g ∧ ∀ x, f.evaluate x = g.evaluate x := by
  rw [compile_eq_compileFolded, compile_eq_compileFolded, ← h]
  cases hcompile : compileFolded (folded s.toList) with
  | error reason =>
    cases reason with
    | empty => exact Or.inl ⟨rfl, rfl⟩
    | invalid => exact Or.inr (Or.inl ⟨rfl, rfl⟩)
  | ok formula => exact Or.inr (Or.inr ⟨formula, formula, rfl, rfl, fun _ => rfl⟩)

/-- Capitals, blanks inside and around the assignment and the other signs make no difference. -/
theorem compile_congr_of_folded_of_signs :
    ∃ f g, compile " Y\t= 2 × X ^ 2 ÷ 4 " = .ok f ∧ compile "y=2*x**2/4" = .ok g ∧
      ∀ x, f.evaluate x = g.evaluate x := by
  have hfolded : folded " Y\t= 2 × X ^ 2 ÷ 4 ".toList = folded "y=2*x**2/4".toList := by decide
  have hcompile := compile_eq_ok_iff_accepts.mpr
    ⟨show accepts (canonical (Text.trim "y=2*x**2/4".toList)) = true by decide, rfl⟩
  rcases compile_congr_of_folded hfolded with ⟨-, hempty⟩ | ⟨-, hinvalid⟩ | hagree
  · rw [hcompile] at hempty
    cases hempty
  · rw [hcompile] at hinvalid
    cases hinvalid
  · exact hagree

end Formula

end FunctionGraph
