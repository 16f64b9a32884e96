import FunctionGraph.Proofs.Formula.Checks
import FunctionGraph.Proofs.Formula.Evaluation

/-!
# Accepted texts that are no expressions

The checks know nothing of the grammar, and some texts that they accept cannot be evaluated. What they
miss is a short list of defects: an accepted text without one is an expression.
-/

namespace FunctionGraph.Formula

/-- What the checks overlook. -/
inductive IsDefective (text : List Char) : Prop where
  | closesTooMuch (before : List Char) (h : before <+: text)
      (hcount : before.count '(' < before.count ')')
  | begins (c : Char) (hc : c = '*' ∨ c = '/') (h : text.head? = some c)
  | groupBegins (c : Char) (hc : c = '+' ∨ c = '*' ∨ c = '/') (h : ['(', c] <:+: text)
  | ends (c : Char) (hc : isSign c = true) (h : text.getLast? = some c)
  | groupEnds (c : Char) (hc : isSign c = true) (h : [c, ')'] <:+: text)
  | emptyGroup (h : ['(', ')'] <:+: text)
  | exponentBegins (c : Char) (hc : c = '+' ∨ c = '/') (h : ['*', '*', c] <:+: text)
  | number (run : List Char) (h : IsMaximalRun run text)
      (hrun : run.any isDigit = false ∨ 1 < run.count '.')
  | pointBehind (c : Char) (hc : c = 'x' ∨ c = ')') (h : [c, '.'] <:+: text)
  | pointBefore (c : Char) (hc : c = 'x' ∨ c = '(') (h : ['.', c] <:+: text)

/-! ### A defect is never in an expression -/

theorem IsPlaced.adjoins_of_infix {text : List Char} (h : IsPlaced text) {c d : Char}
    (hpair : [c, d] <:+: text) : adjoins c d = true :=
  rel_of_isChain h.adjoin hpair

theorem IsPlaced.not_defective {text : List Char} (h : IsPlaced text) : ¬IsDefective text := by
  intro hdefect
  cases hdefect with
  | closesTooMuch before hbefore hcount =>
    have hle := (nests_iff.mp h.nests).1 before hbefore
    omega
  | begins c hc hhead =>
    obtain ⟨d, rest, rfl, hd⟩ := h.begins
    obtain rfl := Option.some.inj hhead
    rcases hc with rfl | rfl <;> exact absurd hd (by decide)
  | groupBegins c hc hpair =>
    have hadjoin := h.adjoins_of_infix hpair
    rcases hc with rfl | rfl | rfl <;> exact absurd hadjoin (by decide)
  | ends c hc hlast =>
    obtain ⟨rest, d, rfl, hd⟩ := h.ends
    rw [List.getLast?_concat] at hlast
    obtain rfl := Option.some.inj hlast
    simp only [isSign, Bool.or_eq_true, beq_iff_eq] at hc
    rcases hc with ((rfl | rfl) | rfl) | rfl <;> exact absurd hd (by decide)
  | groupEnds c hc hpair =>
    have hadjoin := h.adjoins_of_infix hpair
    simp only [isSign, Bool.or_eq_true, beq_iff_eq] at hc
    rcases hc with ((rfl | rfl) | rfl) | rfl <;> exact absurd hadjoin (by decide)
  | emptyGroup hpair => exact absurd (h.adjoins_of_infix hpair) (by decide)
  | exponentBegins c hc htriple =>
    have hpair : ['*', c] <:+: text := (List.infix_cons (List.infix_refl _)).trans htriple
    have hadjoin := h.adjoins_of_infix hpair
    rcases hc with rfl | rfl <;> exact absurd hadjoin (by decide)
  | number run hrun hnot =>
    obtain ⟨-, hdigit, hpoint⟩ := h.numbers run hrun
    rcases hnot with hnone | hmany
    · rw [hnone] at hdigit
      contradiction
    · omega
  | pointBehind c hc hpair =>
    have hadjoin := h.adjoins_of_infix hpair
    rcases hc with rfl | rfl <;> exact absurd hadjoin (by decide)
  | pointBefore c hc hpair =>
    have hadjoin := h.adjoins_of_infix hpair
    rcases hc with rfl | rfl <;> exact absurd hadjoin (by decide)

/-! ### An accepted text without a defect is an expression -/

/-- What the checks say of an accepted text. -/
structure IsAccepted (text : List Char) : Prop where
  ne_nil : text ≠ []
  allowed : ∀ c ∈ text, isAllowed c = true
  head : text.head? ≠ some '+'
  bases : ∀ b, [b, '*', '*'] <:+: text → endsOperand b = true
  parentheses : text.count '(' = text.count ')'
  apart : operatorsAreApart none text = true
  joined : text.IsChain fun c d =>
    endsOperand c = true → startsOperand d = true → isDigit c = true ∧ isDigit d = true

theorem isAccepted_of_accepts {text : List Char} (h : accepts text = true) : IsAccepted text := by
  simp only [accepts, Bool.and_eq_true, bne_iff_ne, parenthesesMatch, beq_iff_eq] at h
  obtain ⟨⟨⟨⟨⟨⟨hchars, -⟩, hhead⟩, hpowers⟩, hcount⟩, hapart⟩, hjoined⟩ := h
  obtain ⟨hne, hallowed⟩ := hasAllowedChars_iff.mp hchars
  refine ⟨?_, hallowed, hhead, (powersHaveBases_iff.mp hpowers).2, hcount, hapart,
    operandsAreJoined_iff.mp hjoined⟩
  rintro rfl
  exact hne rfl

section Accepted

variable {text : List Char} (h : IsAccepted text) (hclean : ¬IsDefective text)

include h hclean

theorem IsAccepted.begins : ∃ c rest, text = c :: rest ∧ canBegin c = true := by
  obtain ⟨c, rest, rfl⟩ := List.exists_cons_of_ne_nil h.ne_nil
  refine ⟨c, rest, rfl, ?_⟩
  rcases isAllowed_iff.mp (h.allowed c List.mem_cons_self) with hc | rfl | rfl | rfl | rfl
  · exact hc
  · have hprefix : [')'] <+: ')' :: rest := by simp
    exact absurd (.closesTooMuch [')'] hprefix (by decide)) hclean
  · exact absurd rfl h.head
  · exact absurd (.begins '*' (by simp) rfl) hclean
  · exact absurd (.begins '/' (by simp) rfl) hclean

theorem IsAccepted.ends : ∃ rest c, text = rest ++ [c] ∧ canEnd c = true := by
  have hlast := List.dropLast_concat_getLast h.ne_nil
  generalize text.getLast h.ne_nil = c at hlast
  refine ⟨text.dropLast, c, hlast.symm, ?_⟩
  have hsome : text.getLast? = some c := by rw [← hlast, List.getLast?_concat]
  have hsign : isSign c = false := by
    by_contra hc
    exact hclean (.ends c (by simpa using hc) hsome)
  have hopening : c ≠ '(' := by
    -- The parenthesis would be opened at the very end, and all before it closes one too many.
    rintro rfl
    have hcount := h.parentheses
    rw [← hlast, List.count_append, List.count_append] at hcount
    have hmore : text.dropLast.count '(' < text.dropLast.count ')' := by
      simp at hcount
      omega
    exact hclean (.closesTooMuch _ (List.dropLast_prefix text) hmore)
  have hmem : c ∈ text := List.mem_of_getLast? hsome
  have hallowed := h.allowed c hmem
  simp only [isSign, Bool.or_eq_false_iff, beq_eq_false_iff_ne] at hsign
  obtain ⟨⟨⟨hplus, hminus⟩, hstar⟩, hslash⟩ := hsign
  simpa [isAllowed, canEnd, hplus, hminus, hstar, hslash, hopening] using hallowed

/-- Behind an operand stands no other one, but for the next character of a number. -/
theorem IsAccepted.adjoins_behind_operand {c d : Char} (hpair : [c, d] <:+: text)
    (hc : canEnd c = true) : adjoins c d = true := by
  rw [adjoins, if_pos hc, Bool.or_eq_true, Bool.and_eq_true]
  by_contra hnot
  obtain ⟨hfollow, hnumeric⟩ := not_or.mp hnot
  have hends : endsOperand c = true ∨ c = '.' := by
    simp only [canEnd, isNumeric, Bool.or_eq_true, beq_iff_eq] at hc
    rcases hc with ((hdigit | hpoint) | hx) | hclosing
    · exact Or.inl (by simp [endsOperand, hdigit])
    · exact Or.inr hpoint
    · exact Or.inl (by simp [endsOperand, hx])
    · exact Or.inl (by simp [endsOperand, hclosing])
  have hstarts : startsOperand d = true ∨ d = '.' := by
    have hallowed := h.allowed d (hpair.subset (by simp))
    simp only [canFollow, isSign, Bool.or_eq_true, beq_iff_eq, not_or] at hfollow
    simp only [isAllowed, isNumeric, Bool.or_eq_true, beq_iff_eq, hfollow, or_false] at hallowed
    rcases hallowed with ((hdigit | hpoint) | hx) | hopening
    · exact Or.inl (by simp [startsOperand, hdigit])
    · exact Or.inr hpoint
    · exact Or.inl (by simp [startsOperand, hx])
    · exact Or.inl (by simp [startsOperand, hopening])
  rcases hends with hends | rfl
  · rcases hstarts with hstarts | rfl
    · obtain ⟨hcdigit, hddigit⟩ := rel_of_isChain h.joined hpair hends hstarts
      exact hnumeric ⟨by simp [isNumeric, hcdigit], by simp [isNumeric, hddigit]⟩
    · simp only [endsOperand, Bool.or_eq_true, beq_iff_eq, or_assoc] at hends
      rcases hends with hdigit | hother
      · exact hnumeric ⟨by simp [isNumeric, hdigit], by decide⟩
      · exact hclean (.pointBehind c hother hpair)
  · rcases hstarts with hstarts | rfl
    · simp only [startsOperand, Bool.or_eq_true, beq_iff_eq, or_assoc] at hstarts
      rcases hstarts with hdigit | hother
      · exact hnumeric ⟨by decide, by simp [isNumeric, hdigit]⟩
      · exact hclean (.pointBefore d hother hpair)
    · exact hnumeric ⟨by decide, by decide⟩

/-- Where no operand ends, one begins, unless a power sign goes on. -/
theorem IsAccepted.adjoins_behind_sign {c d : Char} (hpair : [c, d] <:+: text)
    (hc : canEnd c = false) : adjoins c d = true := by
  have hopens : isSign c = true ∨ c = '(' := by
    have hallowed := h.allowed c (hpair.subset (by simp))
    simp only [canEnd, Bool.or_eq_false_iff, beq_eq_false_iff_ne] at hc
    simp only [isAllowed, hc, Bool.false_or, Bool.or_eq_true, beq_iff_eq, false_or, or_false]
      at hallowed
    simpa [isSign] using hallowed
  have hgroup : (isSign c || c == '(') = true := by simpa using hopens
  rw [adjoins, hc, if_neg Bool.false_ne_true, hgroup, Bool.true_and, Bool.or_eq_true]
  rcases isAllowed_iff.mp (h.allowed d (hpair.subset (by simp))) with hbegin | hother
  · exact Or.inl hbegin
  refine Or.inr ?_
  rcases hopens with hsign | rfl
  · rcases hother with rfl | hother
    · exact absurd (.groupEnds c hsign hpair) hclean
    · have hoperator : isOperatorSign c = true := by
        rw [isOperatorSign, ← isSign, hsign, Bool.true_or]
      have hoperator' : isOperatorSign d = true := by
        rcases hother with rfl | rfl | rfl <;> decide
      rcases operators_of_infix h.apart hpair hoperator hoperator' with
        ⟨rfl, rfl | htriple⟩ | ⟨-, rfl⟩
      · rfl
      · rcases hother with rfl | rfl | rfl
        · exact absurd (.exponentBegins '+' (by simp) htriple) hclean
        · rfl
        · exact absurd (.exponentBegins '/' (by simp) htriple) hclean
      · exact absurd hother (by decide)
  · rcases hother with rfl | hother
    · exact absurd (.emptyGroup hpair) hclean
    · exact absurd (.groupBegins d hother hpair) hclean

theorem IsAccepted.adjoins {c d : Char} (hpair : [c, d] <:+: text) : adjoins c d = true := by
  by_cases hc : canEnd c = true
  · exact h.adjoins_behind_operand hclean hpair hc
  · exact h.adjoins_behind_sign hclean hpair (by simpa using hc)

theorem IsAccepted.isPlaced : IsPlaced text where
  begins := h.begins hclean
  ends := h.ends hclean
  adjoin := (List.isChain_isInfix text).imp fun _ _ hpair => h.adjoins hclean hpair
  stars := fun hstars => absurd (h.bases '*' hstars) (by decide)
  nests := by
    refine nests_iff.mpr ⟨?_, by rw [h.parentheses, Nat.zero_add]⟩
    intro before hbefore
    by_contra hmore
    exact hclean (.closesTooMuch before hbefore (by omega))
  numbers := by
    intro run hrun
    have hnumber : ¬(run.any isDigit = false ∨ 1 < run.count '.') :=
      fun hnot => hclean (.number run hrun hnot)
    rw [not_or, Bool.not_eq_false, Nat.not_lt] at hnumber
    exact ⟨hrun.2.1, hnumber⟩

end Accepted

/-- **What the checks miss.** An accepted text is an expression unless it shows a defect, and then it has
no value anywhere. An accepted text without a defect has a greedy tree, and when this does not nest too
deeply, the text has a value or divides by zero. -/
theorem accepts_isExpression_gap {text : List Char} (h : accepts text = true) :
    (¬IsExpression text ↔ IsDefective text)
      ∧ (IsDefective text → ∀ limit x value, evaluateWithin limit text x ≠ .ok value)
      ∧ (¬IsDefective text → ∃ expr, Parses .sum text expr ∧ expr.isGreedy = true
        ∧ ∀ limit x, expr.nesting ≤ limit →
          (∃ value, evaluateWithin limit text x = .ok value)
            ∨ evaluateWithin limit text x = .error .divisionByZero) := by
  have haccepted := isAccepted_of_accepts h
  have hnot : IsDefective text → ¬IsExpression text := by
    intro hdefect hexpr
    exact (isExpression_iff_isPlaced.mp hexpr).not_defective hdefect
  have hexpr : ¬IsDefective text → IsExpression text := by
    intro hclean
    exact isExpression_iff_isPlaced.mpr (haccepted.isPlaced hclean)
  refine ⟨⟨?_, hnot⟩, ?_, ?_⟩
  · intro hnone
    by_contra hclean
    exact hnone (hexpr hclean)
  · intro hdefect limit x value hvalue
    exact hnot hdefect (isExpression_of_evaluateWithin hvalue)
  · intro hclean
    obtain ⟨expr, ⟨hparses, hgreedy⟩, -⟩ := existsUnique_greedy (hexpr hclean)
    refine ⟨expr, hparses, hgreedy, ?_⟩
    intro limit x hnesting
    rw [evaluateWithin_greedy hparses hgreedy hnesting x]
    split
    · exact Or.inr rfl
    · exact Or.inl ⟨_, rfl⟩

/-- `x+` is accepted and no expression, and `-x` has no defect. -/
theorem accepts_isExpression_gap_at_sign :
    (accepts ['x', '+'] = true ∧ ¬IsExpression ['x', '+'])
      ∧ accepts ['-', 'x'] = true ∧ ¬IsDefective ['-', 'x'] := by
  have hdangling : accepts ['x', '+'] = true := by decide
  have hsigned : accepts ['-', 'x'] = true := by decide
  have hparses : Parses .sum ['-', 'x'] (.negate .variable) :=
    Parses.variable.base.negate.base.single.summand
  refine ⟨⟨hdangling, ?_⟩, hsigned, ?_⟩
  · exact (accepts_isExpression_gap hdangling).1.mpr (.ends '+' (by decide) rfl)
  · intro hdefect
    exact (accepts_isExpression_gap hsigned).1.mpr hdefect ⟨_, hparses⟩

end FunctionGraph.Formula
