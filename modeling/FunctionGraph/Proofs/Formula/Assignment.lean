import FunctionGraph.Formula.Basic
import FunctionGraph.Proofs.Formula.Checks
import FunctionGraph.Proofs.Text.Blank

/-!
# Assignments in a formula

The first assignment to `y` is cut out of a typed text wherever it stands. Nothing asks whether it stands
at the start, and the two sides of the cut are then read as one expression: `2+y=x` is the formula `2+x`.
No second assignment and no lone sign of one gets past the checks.
-/

namespace FunctionGraph

namespace Formula

variable {text rest before after expr : List Char} {c : Char}

/-! ### One spelling -/

/-- The text without its blanks, with one spelling for each operation. -/
def spelled (text : List Char) : List Char :=
  (Text.dropBlanks text).flatMap spell

theorem spelled_append (left right : List Char) :
    spelled (left ++ right) = spelled left ++ spelled right := by
  rw [spelled, Text.dropBlanks_append, List.flatMap_append]
  rfl

theorem spelled_trimStart (text : List Char) : spelled (Text.trimStart text) = spelled text := by
  rw [spelled, Text.dropBlanks_trimStart]
  rfl

/-- A character that is its own spelling stays. -/
theorem mem_spelled (hc : c ∈ text) (hblank : Text.isBlank c = false) (hspell : spell c = [c]) :
    c ∈ spelled text := by
  have hkept : c ∈ Text.dropBlanks text := List.mem_filter.mpr ⟨hc, by simp [hblank]⟩
  exact List.mem_flatMap.mpr ⟨c, hkept, hspell ▸ List.mem_singleton_self c⟩

theorem isAllowed_of_accepts (h : accepts text = true) (hc : c ∈ text) : isAllowed c = true := by
  simp only [accepts, Bool.and_eq_true] at h
  exact (hasAllowedChars_iff.mp h.1.1.1.1.1.1).2 c hc

/-! ### The cut -/

theorem dropAssignment_cons_of_ne (hc : c ≠ 'y') (rest : List Char) :
    dropAssignment (c :: rest) = c :: dropAssignment rest := by
  have hnone : afterAssignment? (c :: rest) = none := by
    unfold afterAssignment?
    split
    · next heq => exact absurd (List.cons.inj heq).1 hc
    · rfl
  rw [dropAssignment, hnone, Option.getD_none]

theorem dropAssignment_append (h : 'y' ∉ before) (rest : List Char) :
    dropAssignment (before ++ rest) = before ++ dropAssignment rest := by
  induction before with
  | nil => rfl
  | cons c before ih =>
    rw [List.mem_cons, not_or] at h
    obtain ⟨hc, hbefore⟩ := h
    rw [List.cons_append, dropAssignment_cons_of_ne (Ne.symm hc), ih hbefore, List.cons_append]

theorem dropAssignment_of_not_mem (h : 'y' ∉ text) : dropAssignment text = text := by
  have happend := dropAssignment_append h []
  rwa [List.append_nil, dropAssignment, List.append_nil] at happend

/-- The text has the two sides around an assignment to `y`. -/
def AssignsBetween (text before after : List Char) : Prop :=
  ∃ blanks, (∀ c ∈ blanks, Text.isBlank c = true) ∧ text = before ++ 'y' :: (blanks ++ '=' :: after)

theorem AssignsBetween.cons (h : AssignsBetween text before after) (c : Char) :
    AssignsBetween (c :: text) (c :: before) after := by
  obtain ⟨blanks, hblanks, rfl⟩ := h
  exact ⟨blanks, hblanks, rfl⟩

theorem AssignsBetween.dropAssignment_eq (h : AssignsBetween text before after) (hy : 'y' ∉ before) :
    dropAssignment text = before ++ Text.trimStart after := by
  obtain ⟨blanks, hblanks, rfl⟩ := h
  have hsign : Text.trimStart (blanks ++ '=' :: after) = '=' :: after := by
    rw [Text.trimStart_append hblanks, Text.trimStart_cons_of_not_blank (by decide)]
  rw [dropAssignment_append hy, dropAssignment, afterAssignment?, hsign]
  rfl

theorem dropAssignment_unassigned (h : (Text.trimStart rest).head? ≠ some '=') :
    dropAssignment ('y' :: rest) = 'y' :: dropAssignment rest := by
  have hnone : afterAssignment? ('y' :: rest) = none := by
    rw [afterAssignment?]
    split
    · next heq => exact absurd (by rw [heq]; rfl) h
    · rfl
  rw [dropAssignment, hnone, Option.getD_none]

/-- A `y` begins an assignment, or the sign of one does not come next. -/
theorem assignsBetween_or (rest : List Char) :
    (∃ after, AssignsBetween ('y' :: rest) [] after) ∨ (Text.trimStart rest).head? ≠ some '=' := by
  by_cases hsign : (Text.trimStart rest).head? = some '='
  · obtain ⟨blanks, hblanks, happend⟩ := Text.exists_append_trimStart rest
    obtain ⟨after, hafter⟩ := List.head?_eq_some_iff.mp hsign
    refine Or.inl ⟨after, blanks, hblanks, ?_⟩
    rw [← hafter, happend, List.nil_append]
  · exact Or.inr hsign

theorem dropAssignment_cons (c : Char) (rest : List Char) :
    dropAssignment (c :: rest) = c :: dropAssignment rest ∨
      ∃ after, AssignsBetween (c :: rest) [] after := by
  by_cases hc : c = 'y'
  · subst hc
    rcases assignsBetween_or rest with hassigned | hsign
    · exact Or.inr hassigned
    · exact Or.inl (dropAssignment_unassigned hsign)
  · exact Or.inl (dropAssignment_cons_of_ne hc rest)

/-- Nothing is dropped, or an assignment and the blanks behind it. -/
theorem dropAssignment_eq_or (text : List Char) :
    dropAssignment text = text ∨
      ∃ before after, AssignsBetween text before after ∧
        dropAssignment text = before ++ Text.trimStart after := by
  induction text with
  | nil => exact Or.inl rfl
  | cons c rest ih =>
    rcases dropAssignment_cons c rest with hkeep | ⟨after, hassigned⟩
    · rw [hkeep]
      rcases ih with hsame | ⟨before, after, hassigned, hdrop⟩
      · exact Or.inl (by rw [hsame])
      · exact Or.inr ⟨c :: before, after, hassigned.cons c, by rw [hdrop, List.cons_append]⟩
    · exact Or.inr ⟨[], after, hassigned, hassigned.dropAssignment_eq List.not_mem_nil⟩

/-! ### One assignment at most -/

/-- Neither sign of an assignment is in the text. -/
def IsBare (text : List Char) : Prop :=
  'y' ∉ text ∧ '=' ∉ text

theorem isBare_append {left right : List Char} :
    IsBare (left ++ right) ↔ IsBare left ∧ IsBare right := by
  simp only [IsBare, List.mem_append, not_or]
  exact and_and_and_comm

theorem isBare_of_blank {blanks : List Char} (h : ∀ c ∈ blanks, Text.isBlank c = true) :
    IsBare blanks := by
  constructor
  · intro hy
    exact absurd (h _ hy) (by decide)
  · intro hsign
    exact absurd (h _ hsign) (by decide)

theorem isBare_trimStart : IsBare (Text.trimStart text) ↔ IsBare text := by
  obtain ⟨blanks, hblanks, happend⟩ := Text.exists_append_trimStart text
  have hsplit : IsBare (blanks ++ Text.trimStart text) ↔ _ := isBare_append
  rw [happend] at hsplit
  rw [hsplit, and_iff_right (isBare_of_blank hblanks)]

/-- No text with a sign of an assignment passes the checks. -/
theorem isBare_of_accepts (h : accepts (spelled text) = true) : IsBare text := by
  constructor
  · intro hy
    exact absurd (isAllowed_of_accepts h (mem_spelled hy (by decide) rfl)) (by decide)
  · intro hsign
    exact absurd (isAllowed_of_accepts h (mem_spelled hsign (by decide) rfl)) (by decide)

/-- The text is the expression itself, or the expression with one assignment to `y` anywhere in it. -/
inductive AssignsOnce (text : List Char) : List Char → Prop
  | bare (h : IsBare text) : AssignsOnce text text
  | assigned {before after : List Char} (h : AssignsBetween text before after) (hbefore : IsBare before)
      (hafter : IsBare after) : AssignsOnce text (before ++ after)

theorem AssignsOnce.spelled_dropAssignment (h : AssignsOnce text expr) :
    spelled (dropAssignment text) = spelled expr := by
  cases h with
  | bare h => rw [dropAssignment_of_not_mem h.1]
  | assigned h hbefore _ =>
    rw [h.dropAssignment_eq hbefore.1, spelled_append, spelled_append, spelled_trimStart]

theorem exists_assignsOnce (h : IsBare (dropAssignment text)) : ∃ expr, AssignsOnce text expr := by
  rcases dropAssignment_eq_or text with hsame | ⟨before, after, hassigned, hdrop⟩
  · rw [hsame] at h
    exact ⟨text, .bare h⟩
  · rw [hdrop, isBare_append, isBare_trimStart] at h
    exact ⟨before ++ after, .assigned hassigned h.1 h.2⟩

theorem compile_eq_ok_iff_accepts {text : String} {formula : Formula} :
    compile text = .ok formula ↔
      accepts (canonical (Text.trim text.toList)) = true ∧
        formula = ⟨canonical (Text.trim text.toList), readExpr (canonical (Text.trim text.toList))⟩ := by
  rw [compile]
  by_cases hempty : Text.trim text.toList = []
  · have hrefused : accepts (canonical []) = false := by decide
    simp [hempty, hrefused]
  · have htyped : (Text.trim text.toList).isEmpty = false := by simpa using hempty
    simp only [htyped, Bool.false_eq_true, if_false]
    split
    · next haccepts => simp [haccepts, eq_comm]
    · next hrefused => simp [hrefused]

/-- **Where an assignment may stand.** A text is accepted just when, trimmed and in lowercase, it is an
expression that passes the checks, with at most one assignment to `y` and no further sign of one. The
assignment may stand anywhere in the expression, and the formula is that of the text without it. -/
theorem compile_eq_ok_iff_assignsOnce {text : String} {formula : Formula} :
    compile text = .ok formula ↔
      ∃ expr, AssignsOnce (Text.lower (Text.trim text.toList)) expr ∧
        accepts (spelled expr) = true ∧ formula = ⟨spelled expr, readExpr (spelled expr)⟩ := by
  have hcanonical : canonical (Text.trim text.toList)
      = spelled (dropAssignment (Text.lower (Text.trim text.toList))) := rfl
  rw [compile_eq_ok_iff_accepts, hcanonical]
  constructor
  · rintro ⟨haccepts, rfl⟩
    obtain ⟨expr, hexpr⟩ := exists_assignsOnce (isBare_of_accepts haccepts)
    rw [hexpr.spelled_dropAssignment] at haccepts ⊢
    exact ⟨expr, hexpr, haccepts, rfl⟩
  · rintro ⟨expr, hexpr, haccepts, rfl⟩
    rw [hexpr.spelled_dropAssignment]
    exact ⟨haccepts, rfl⟩

/-- The text has no sign of an assignment but those of one that starts it. -/
def AssignsFirst (text : List Char) : Prop :=
  IsBare text ∨ ∃ after, AssignsBetween text [] after ∧ IsBare after

/-- The assignment in the middle of `2+y=x` is dropped, and the text is accepted. -/
theorem compile_inner_assignment_accepted :
    ¬∀ (text : String) (formula : Formula), compile text = .ok formula →
      AssignsFirst (Text.lower (Text.trim text.toList)) := by
  intro hfirst
  have htyped : Text.lower (Text.trim "2+y=x".toList) = ['2', '+', 'y', '=', 'x'] := by decide
  have hcompile := compile_eq_ok_iff_accepts.mpr
    ⟨show accepts (canonical (Text.trim "2+y=x".toList)) = true by decide, rfl⟩
  have hassigns := hfirst _ _ hcompile
  rw [htyped] at hassigns
  rcases hassigns with ⟨hy, -⟩ | ⟨after, ⟨blanks, -, heq⟩, -⟩
  · exact hy (by decide)
  · exact absurd (List.cons.inj heq).1 (by decide)

end Formula

end FunctionGraph
