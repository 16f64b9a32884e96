import FunctionGraph.Proofs.Formula.Checks

/-!
# Expressions that the checks refuse

The other way round, two kinds of expressions do not pass the checks: a sign right behind an operation,
as in `2*-3`, and a power of a number that ends with its point, as in `5.**2`. Signs at all other places
pass, in chains of any length.
-/

namespace FunctionGraph.Formula

namespace Expr

/-- The first token of the expression is the sign of an operand. -/
def startsWithSign : Expr → Bool
  | .negate _ => true
  | .power base _ => base.startsWithSign
  | .binary _ left _ => left.startsWithSign
  | .number _ | .variable | .group _ => false

/-- The sign of an operand stands right behind an operation somewhere. -/
def signsOperand : Expr → Bool
  | .number _ | .variable => false
  | .group inner | .negate inner => inner.signsOperand
  | .power base exponent => base.signsOperand || exponent.signsOperand
  | .binary _ left right => left.signsOperand || right.startsWithSign || right.signsOperand

/-- The expression with a chain of signs in front of it. -/
def signed (expr : Expr) : Nat → Expr
  | 0 => expr
  | n + 1 => .negate (expr.signed n)

end Expr

theorem Parses.head?_eq_minus_iff {level : Level} {text : List Char} {expr : Expr}
    (h : Parses level text expr) : text.head? = some '-' ↔ expr.startsWithSign = true := by
  induction h with
  | @number literal h =>
    have hne : literal.head? ≠ some '-' := by
      intro hhead
      exact absurd (h.isNumeric_of_mem (List.mem_of_mem_head? hhead)) (by decide)
    simpa [Expr.startsWithSign] using hne
  | «variable» | group _ _ => simp [Expr.startsWithSign]
  | negate _ _ => simp [Expr.startsWithSign]
  | base _ ih | single _ ih | summand _ ih => exact ih
  | raise hleft _ ih _ | operate hleft _ ih _ =>
    obtain ⟨c, rest, rfl, -⟩ := hleft.begins
    exact ih

/-! ### The scan of the operators follows the tree -/

theorem operatorsAreApart_of_not_operator {c : Char} (hc : isOperatorSign c = false)
    (previous : Option Char) (rest : List Char) :
    operatorsAreApart previous (c :: rest) = operatorsAreApart (some c) rest := by
  cases rest with
  | nil => rfl
  | cons d rest => rw [operatorsAreApart, hc, Bool.false_and, if_neg Bool.false_ne_true]

theorem operatorsAreApart_star_star (previous : Option Char) (rest : List Char) :
    operatorsAreApart previous ('*' :: '*' :: rest) = operatorsAreApart (some '*') rest := by
  rw [operatorsAreApart, if_pos (by decide), if_pos (by decide)]

theorem operatorsAreApart_minus_minus (previous : Option Char) (rest : List Char) :
    operatorsAreApart previous ('-' :: '-' :: rest)
      = (precedesSign previous && operatorsAreApart (some '-') ('-' :: rest)) := by
  rw [operatorsAreApart, if_pos (by decide), if_neg (by decide)]
  rfl

theorem operatorsAreApart_sign_minus (operation : Operation) {previous : Option Char}
    (hprevious : precedesSign previous = false) (rest : List Char) :
    operatorsAreApart previous (operation.sign :: '-' :: rest) = false := by
  rw [operatorsAreApart]
  cases operation <;> simp [Operation.sign, isOperatorSign, hprevious]

theorem operatorsAreApart_before {c d : Char} (hd : isOperatorSign d = false)
    (previous : Option Char) (rest : List Char) :
    operatorsAreApart previous (c :: d :: rest) = operatorsAreApart (some c) (d :: rest) := by
  rw [operatorsAreApart, hd, Bool.and_false, if_neg Bool.false_ne_true]

theorem operatorsAreApart_append_of_forall {run : List Char}
    (hrun : ∀ c ∈ run, isOperatorSign c = false) (hne : run ≠ []) (previous : Option Char)
    (rest : List Char) :
    operatorsAreApart previous (run ++ rest) = operatorsAreApart run.getLast? rest := by
  induction run generalizing previous with
  | nil => exact absurd rfl hne
  | cons c run ih =>
    rw [List.cons_append, operatorsAreApart_of_not_operator (hrun c List.mem_cons_self)]
    by_cases hnil : run = []
    · subst hnil
      rfl
    · rw [ih (fun d hd => hrun d (List.mem_cons_of_mem _ hd)) hnil, List.getLast?_cons_of_ne_nil hnil]

theorem isOperatorSign_of_canEnd {c : Char} (hc : canEnd c = true) : isOperatorSign c = false := by
  by_contra hne
  simp only [isOperatorSign, Bool.not_eq_false, Bool.or_eq_true, beq_iff_eq] at hne
  rcases hne with (((rfl | rfl) | rfl) | rfl) | rfl <;> exact absurd hc (by decide)

theorem isOperatorSign_of_canBegin {d : Char} (hd : canBegin d = true) (hminus : d ≠ '-') :
    isOperatorSign d = false := by
  by_contra hne
  simp only [isOperatorSign, Bool.not_eq_false, Bool.or_eq_true, beq_iff_eq] at hne
  rcases hne with (((rfl | rfl) | rfl) | rfl) | rfl
  · exact absurd hd (by decide)
  · exact hminus rfl
  · exact absurd hd (by decide)
  · exact absurd hd (by decide)
  · exact absurd hd (by decide)

/-- A sign of an operand is passed when it stands where a sign may. -/
theorem Parses.operatorsAreApart_minus {level : Level} {text : List Char} {expr : Expr}
    (h : Parses level text expr) {previous : Option Char} (hprevious : precedesSign previous = true)
    (rest : List Char) :
    operatorsAreApart previous ('-' :: (text ++ rest))
      = operatorsAreApart (some '-') (text ++ rest) := by
  obtain ⟨d, tail, rfl, hd⟩ := h.begins
  by_cases hminus : d = '-'
  · subst hminus
    rw [List.cons_append, operatorsAreApart_minus_minus, hprevious, Bool.true_and]
  · exact operatorsAreApart_before (isOperatorSign_of_canBegin hd hminus) previous _

/-- Behind an operation, the scan stops at the sign of an operand. -/
theorem Parses.operatorsAreApart_sign {level : Level} {text : List Char} {expr : Expr}
    (h : Parses level text expr) (operation : Operation) {previous : Option Char}
    (hprevious : precedesSign previous = false) (rest : List Char) :
    operatorsAreApart previous (operation.sign :: (text ++ rest))
      = (!expr.startsWithSign && operatorsAreApart (some operation.sign) (text ++ rest)) := by
  have hminus := h.head?_eq_minus_iff
  obtain ⟨d, tail, rfl, hd⟩ := h.begins
  by_cases heq : d = '-'
  · subst heq
    rw [hminus.mp rfl, Bool.not_true, Bool.false_and]
    exact operatorsAreApart_sign_minus operation hprevious _
  · have hnone : expr.startsWithSign = false := by
      rw [← Bool.not_eq_true, ← hminus]
      simpa using heq
    rw [hnone, Bool.not_false, Bool.true_and]
    exact operatorsAreApart_before (isOperatorSign_of_canBegin hd heq) previous _

theorem Parses.precedesSign_getLast? {level : Level} {text : List Char} {expr : Expr}
    (h : Parses level text expr) : precedesSign text.getLast? = false := by
  obtain ⟨rest, c, rfl, hc⟩ := h.ends
  have hopening : c ≠ '(' := by
    rintro rfl
    exact absurd hc (by decide)
  rw [List.getLast?_concat]
  simp [precedesSign, isOperatorSign_of_canEnd hc, hopening]

theorem Parses.getLast?_append {level : Level} {text : List Char} {expr : Expr}
    (h : Parses level text expr) (before : List Char) :
    (before ++ text).getLast? = text.getLast? := by
  obtain ⟨rest, c, rfl, -⟩ := h.ends
  rw [← List.append_assoc, List.getLast?_concat, List.getLast?_concat]

/-- The scan passes through an expression when no operation in it has a signed operand. -/
theorem Parses.operatorsAreApart_append {level : Level} {text : List Char} {expr : Expr}
    (h : Parses level text expr) {previous : Option Char}
    (hprevious : expr.startsWithSign = true → precedesSign previous = true) (rest : List Char) :
    operatorsAreApart previous (text ++ rest)
      = (!expr.signsOperand && operatorsAreApart text.getLast? rest) := by
  induction h generalizing previous rest with
  | @number literal h =>
    have hrun : ∀ c ∈ literal, isOperatorSign c = false := by
      intro c hc
      exact isOperatorSign_of_canEnd (by simp [canEnd, h.isNumeric_of_mem hc])
    exact operatorsAreApart_append_of_forall hrun h.ne_nil previous rest
  | «variable» => exact operatorsAreApart_of_not_operator (by decide) previous rest
  | @group text inner h ih =>
    have hlast : ('(' :: (text ++ [')'])).getLast? = some ')' := by
      rw [← List.cons_append, List.getLast?_concat]
    calc operatorsAreApart previous ('(' :: (text ++ [')']) ++ rest)
      _ = operatorsAreApart (some '(') (text ++ ')' :: rest) := by
        rw [List.cons_append, operatorsAreApart_of_not_operator (by decide), List.append_assoc,
          List.singleton_append]
      _ = (!inner.signsOperand && operatorsAreApart text.getLast? (')' :: rest)) :=
        ih (fun _ => by decide) _
      _ = (!inner.signsOperand && operatorsAreApart (some ')') rest) := by
        rw [operatorsAreApart_of_not_operator (by decide)]
      _ = _ := by rw [hlast, Expr.signsOperand]
  | @negate text inner h ih =>
    rw [List.cons_append, h.operatorsAreApart_minus (hprevious rfl), ih (fun _ => by decide)]
    rw [← List.singleton_append, h.getLast?_append]
    rfl
  | base _ ih | single _ ih | summand _ ih => exact ih hprevious rest
  | @raise left right base exponent hbase hexponent ihbase ihexponent =>
    have hlast := hexponent.getLast?_append (left ++ ['*', '*'])
    rw [List.append_assoc, List.cons_append, List.cons_append, List.nil_append] at hlast
    calc operatorsAreApart previous (left ++ '*' :: '*' :: right ++ rest)
      _ = (!base.signsOperand
            && operatorsAreApart left.getLast? ('*' :: '*' :: (right ++ rest))) := by
        rw [List.append_assoc, ihbase hprevious, List.cons_append, List.cons_append]
      _ = (!base.signsOperand
            && (!exponent.signsOperand && operatorsAreApart right.getLast? rest)) := by
        rw [operatorsAreApart_star_star, ihexponent (fun _ => by decide)]
      _ = _ := by rw [hlast, Expr.signsOperand, Bool.not_or, Bool.and_assoc]
  | @operate operation left right a b hleft hright ihleft ihright =>
    have hlast := hright.getLast?_append (left ++ [operation.sign])
    rw [List.append_assoc, List.singleton_append] at hlast
    have hscan : operatorsAreApart previous (left ++ operation.sign :: right ++ rest)
        = (!a.signsOperand && (!b.startsWithSign
          && operatorsAreApart (some operation.sign) (right ++ rest))) := by
      rw [List.append_assoc, ihleft hprevious, List.cons_append,
        hright.operatorsAreApart_sign operation hleft.precedesSign_getLast?]
    rw [hscan, hlast, Expr.signsOperand]
    by_cases hsign : b.startsWithSign = true
    · simp [hsign]
    · rw [ihright (fun h => absurd h hsign)]
      simp [Bool.and_assoc]

/-! ### The other checks -/

theorem Parses.isAllowed_of_mem {level : Level} {text : List Char} {expr : Expr}
    (h : Parses level text expr) : ∀ c ∈ text, isAllowed c = true := by
  induction h with
  | number h =>
    intro c hc
    simp [isAllowed, h.isNumeric_of_mem hc]
  | «variable» =>
    intro c hc
    obtain rfl : c = 'x' := by simpa using hc
    decide
  | group _ ih =>
    intro c hc
    simp only [List.mem_cons, List.mem_append, List.not_mem_nil, or_false] at hc
    rcases hc with rfl | hc | rfl
    · decide
    · exact ih c hc
    · decide
  | negate _ ih =>
    intro c hc
    rcases List.mem_cons.mp hc with rfl | hc
    · decide
    · exact ih c hc
  | base _ ih | single _ ih | summand _ ih => exact ih
  | raise _ _ ihbase ihexponent =>
    intro c hc
    simp only [List.mem_append, List.mem_cons] at hc
    rcases hc with hc | rfl | rfl | hc
    · exact ihbase c hc
    · decide
    · decide
    · exact ihexponent c hc
  | @operate operation _ _ _ _ _ _ ihleft ihright =>
    intro c hc
    simp only [List.mem_append, List.mem_cons] at hc
    rcases hc with hc | rfl | hc
    · exact ihleft c hc
    · cases operation <;> decide
    · exact ihright c hc

theorem Parses.hasAllowedChars {level : Level} {text : List Char} {expr : Expr}
    (h : Parses level text expr) : hasAllowedChars text = true := by
  refine hasAllowedChars_iff.mpr ⟨?_, h.isAllowed_of_mem⟩
  have hhead := h.head?_ne_star
  obtain ⟨c, rest, rfl, -⟩ := h.begins
  exact withoutPowers_ne_nil (fun heq => hhead (congrArg some heq)) rest

theorem Parses.not_isLoneOperator {level : Level} {text : List Char} {expr : Expr}
    (h : Parses level text expr) : isLoneOperator text = false := by
  obtain ⟨rest, c, rfl, hc⟩ := h.ends
  cases rest with
  | nil => exact isOperatorSign_of_canEnd hc
  | cons d rest => cases rest <;> rfl

theorem Parses.parenthesesMatch {text : List Char} {expr : Expr} (h : Parses .sum text expr) :
    parenthesesMatch text = true := by
  have hcount := (nests_iff.mp h.isPlaced.nests).2
  rw [Nat.zero_add] at hcount
  simp [Formula.parenthesesMatch, hcount]

theorem Parses.operandsAreJoined {level : Level} {text : List Char} {expr : Expr}
    (h : Parses level text expr) : operandsAreJoined text = true := by
  refine operandsAreJoined_iff.mpr (h.isChain.imp ?_)
  intro c d hadjoin hends hstarts
  have hend : canEnd c = true := by
    simp only [endsOperand, Bool.or_eq_true, or_assoc] at hends
    rcases hends with hdigit | hother
    · simp [canEnd, isNumeric, hdigit]
    · simp only [canEnd, Bool.or_eq_true, or_assoc]
      exact Or.inr hother
  have hfollow : canFollow d = false := by
    by_contra hne
    simp only [canFollow, isSign, Bool.not_eq_false, Bool.or_eq_true, beq_iff_eq] at hne
    rcases hne with (((rfl | rfl) | rfl) | rfl) | rfl <;> exact absurd hstarts (by decide)
  rw [adjoins, if_pos hend, hfollow, Bool.false_or, Bool.and_eq_true] at hadjoin
  obtain ⟨hcnumeric, hdnumeric⟩ := hadjoin
  have hcpoint : c ≠ '.' := by
    rintro rfl
    exact absurd hends (by decide)
  have hdpoint : d ≠ '.' := by
    rintro rfl
    exact absurd hstarts (by decide)
  exact ⟨by simpa [isNumeric, hcpoint] using hcnumeric, by simpa [isNumeric, hdpoint] using hdnumeric⟩

/-- The base of a power ends with its point, or the scan of the bases passes. -/
theorem Parses.powersHaveBases_iff {level : Level} {text : List Char} {expr : Expr}
    (h : Parses level text expr) : powersHaveBases none text = true ↔ ¬['.', '*', '*'] <:+: text := by
  rw [Formula.powersHaveBases_iff]
  constructor
  · rintro ⟨-, hbases⟩ hpoint
    exact absurd (hbases '.' hpoint) (by decide)
  · intro hpoint
    refine ⟨?_, ?_⟩
    · intro hprefix
      obtain ⟨rest, hrest⟩ := hprefix
      have hhead := h.head?_ne_star
      rw [← hrest] at hhead
      exact absurd rfl hhead
    · intro b hb
      have hpair : [b, '*'] <:+: text := by
        refine List.IsInfix.trans ?_ hb
        exact ⟨[], ['*'], rfl⟩
      have hadjoin : adjoins b '*' = true := rel_of_isChain h.isChain hpair
      have hend : canEnd b = true := by
        by_contra hend
        rw [adjoins, if_neg hend, Bool.and_eq_true] at hadjoin
        have hnot : canBegin '*' = false := by decide
        have hstar : b = '*' := by simpa [hnot] using hadjoin.2
        exact h.not_stars_infix (hstar ▸ hb)
      have hne : b ≠ '.' := by
        rintro rfl
        exact hpoint hb
      simpa [endsOperand, canEnd, isNumeric, hne] using hend

/-- The checks of an expression come down to two conditions. -/
theorem Parses.accepts_iff {text : List Char} {expr : Expr} (h : Parses .sum text expr) :
    accepts text = true ↔ expr.signsOperand = false ∧ ¬['.', '*', '*'] <:+: text := by
  have hhead : (text.head? != some '+') = true := by
    obtain ⟨c, rest, rfl, hc⟩ := h.begins
    have hplus : c ≠ '+' := by
      rintro rfl
      exact absurd hc (by decide)
    simpa using hplus
  have happart : operatorsAreApart none (text ++ []) = _ :=
    h.operatorsAreApart_append (fun _ => rfl) []
  have hrest : operatorsAreApart text.getLast? [] = true := rfl
  rw [List.append_nil, hrest, Bool.and_true] at happart
  rw [accepts, h.hasAllowedChars, h.not_isLoneOperator, hhead, h.parenthesesMatch,
    h.operandsAreJoined, happart]
  simp only [Bool.not_false, Bool.and_true, Bool.true_and, Bool.and_eq_true, h.powersHaveBases_iff,
    Bool.not_eq_true']
  exact and_comm

/-! ### Chains of signs -/

theorem Parses.signed {text : List Char} {expr : Expr} (h : Parses .power text expr) (n : Nat) :
    Parses .power (List.replicate n '-' ++ text) (expr.signed n) := by
  induction n with
  | zero => exact h
  | succ n ih =>
    rw [List.replicate_succ, List.cons_append]
    exact ih.negate.base

theorem Expr.signsOperand_signed (expr : Expr) (n : Nat) :
    (expr.signed n).signsOperand = expr.signsOperand := by
  induction n with
  | zero => rfl
  | succ n ih => rw [Expr.signed, Expr.signsOperand, ih]

theorem pointed_infix_cons {c : Char} (hc : c ≠ '.') (rest : List Char) :
    ['.', '*', '*'] <:+: c :: rest ↔ ['.', '*', '*'] <:+: rest := by
  rw [List.infix_cons_iff, List.cons_prefix_cons]
  simp [hc.symm]

theorem pointed_infix_signed (text : List Char) (n : Nat) :
    ['.', '*', '*'] <:+: List.replicate n '-' ++ text ↔ ['.', '*', '*'] <:+: text := by
  induction n with
  | zero => rfl
  | succ n ih => rw [List.replicate_succ, List.cons_append, pointed_infix_cons (by decide), ih]

theorem pointed_infix_group (text : List Char) :
    ['.', '*', '*'] <:+: '(' :: (text ++ [')']) ↔ ['.', '*', '*'] <:+: text := by
  have hsuffix : ¬['.', '*', '*'] <:+ text ++ [')'] := by
    intro h
    have hlast := h.getLast (by simp)
    simp at hlast
  rw [pointed_infix_cons (by decide), List.infix_concat_iff]
  simp [hsuffix]

/-- A base that does not end with its point adds none in front of the power sign. -/
theorem pointed_infix_raise {left right : List Char} (hpoint : left.getLast? ≠ some '.')
    (hstar : left.getLast? ≠ some '*') :
    ['.', '*', '*'] <:+: left ++ '*' :: '*' :: right
      ↔ ['.', '*', '*'] <:+: left ∨ ['.', '*', '*'] <:+: right := by
  have hbehind : ['.', '*', '*'] <:+: '*' :: '*' :: right ↔ ['.', '*', '*'] <:+: right := by
    rw [pointed_infix_cons (by decide), pointed_infix_cons (by decide)]
  rw [List.infix_append_iff_ne_nil, hbehind]
  constructor
  · rintro (hin | hin | ⟨a, b, ha, hb, heq, hsuffix, -⟩)
    · exact Or.inl hin
    · exact Or.inr hin
    · -- The end of the left text would be the point, or the point and a star.
      obtain ⟨before, rfl⟩ := hsuffix
      rw [List.getLast?_append_of_ne_nil before ha] at hpoint hstar
      rcases a with _ | ⟨c, _ | ⟨d, _ | ⟨e, a⟩⟩⟩
      · exact absurd rfl ha
      · obtain ⟨rfl, -⟩ : '.' = c ∧ ['*', '*'] = b := by simpa using heq
        exact absurd rfl hpoint
      · obtain ⟨-, rfl, -⟩ : '.' = c ∧ '*' = d ∧ ['*'] = b := by simpa using heq
        exact absurd rfl hstar
      · obtain ⟨-, -, -, -, hnil⟩ : '.' = c ∧ '*' = d ∧ '*' = e ∧ a = [] ∧ b = [] := by
          simpa using heq
        exact absurd hnil hb
  · rintro (hin | hin)
    · exact Or.inl hin
    · exact Or.inr (Or.inl hin)

theorem Parses.accepts_signed {text : List Char} {expr : Expr} (h : Parses .power text expr)
    (haccepts : accepts text = true) (n : Nat) : accepts (List.replicate n '-' ++ text) = true := by
  obtain ⟨hsigns, hpointed⟩ := (h.mono (Level.le_sum _)).accepts_iff.mp haccepts
  refine ((h.signed n).mono (Level.le_sum _)).accepts_iff.mpr ⟨?_, ?_⟩
  · rw [Expr.signsOperand_signed, hsigns]
  · rwa [pointed_infix_signed]

theorem Parses.accepts_group {text : List Char} {expr : Expr} (h : Parses .sum text expr)
    (haccepts : accepts text = true) : accepts ('(' :: (text ++ [')'])) = true := by
  obtain ⟨hsigns, hpointed⟩ := h.accepts_iff.mp haccepts
  refine (h.group.mono (Level.le_sum _)).accepts_iff.mpr ⟨hsigns, ?_⟩
  rwa [pointed_infix_group]

theorem Parses.accepts_raise {left right : List Char} {base exponent : Expr}
    (hbase : Parses .factor left base) (hexponent : Parses .product right exponent)
    (hleft : accepts left = true) (hright : accepts right = true)
    (hpoint : left.getLast? ≠ some '.') : accepts (left ++ '*' :: '*' :: right) = true := by
  obtain ⟨hsigns, hpointed⟩ := (hbase.mono (Level.le_sum _)).accepts_iff.mp hleft
  obtain ⟨hsigns', hpointed'⟩ := hexponent.summand.accepts_iff.mp hright
  refine ((hbase.raise hexponent).mono (Level.le_sum _)).accepts_iff.mpr ⟨?_, ?_⟩
  · rw [Expr.signsOperand, hsigns, hsigns']
    rfl
  · rw [pointed_infix_raise hpoint hbase.getLast?_ne_star, not_or]
    exact ⟨hpointed, hpointed'⟩

/-- **What the checks refuse.** An expression is refused when the sign of an operand stands right behind
an operation, or a power sign right behind a point, and is accepted otherwise. In particular a chain of
signs, however long, passes at the start, behind a parenthesis and behind a power sign. -/
theorem accepts_isExpression_refusals {text : List Char} {expr : Expr} (h : Parses .sum text expr) :
    (accepts text = false ↔ expr.signsOperand = true ∨ ['.', '*', '*'] <:+: text)
      ∧ ∀ operand tree, Parses .power operand tree → accepts operand = true → ∀ n,
        accepts (List.replicate n '-' ++ operand) = true
          ∧ accepts ('(' :: (List.replicate n '-' ++ operand ++ [')'])) = true
          ∧ ∀ left base, Parses .factor left base → accepts left = true →
            left.getLast? ≠ some '.' →
              accepts (left ++ '*' :: '*' :: (List.replicate n '-' ++ operand)) = true := by
  refine ⟨?_, ?_⟩
  · rw [← Bool.not_eq_true, h.accepts_iff, not_and_or, not_not, Bool.not_eq_false]
  · intro operand tree hoperand haccepts n
    have hsigned := hoperand.signed n
    have hpasses := hoperand.accepts_signed haccepts n
    refine ⟨hpasses, hsigned.single.summand.accepts_group hpasses, ?_⟩
    intro left base hbase hleft hpoint
    exact hbase.accepts_raise hsigned.single hleft hpasses hpoint

/-- `5--x` is refused, and `2**---x` is accepted. -/
theorem accepts_isExpression_refusals_of_signs :
    accepts ['5', '-', '-', 'x'] = false ∧ accepts ['2', '*', '*', '-', '-', '-', 'x'] = true := by
  have hfive : Parses .factor ['5'] (.number (.ofText ['5'])) := .number (by decide)
  have htwo : Parses .factor ['2'] (.number (.ofText ['2'])) := .number (by decide)
  have hsigned : Parses .product ['-', 'x'] (.negate .variable) :=
    Parses.variable.base.negate.base.single
  have hparses : Parses .sum ['5', '-', '-', 'x']
      (.binary .subtract (.number (.ofText ['5'])) (.negate .variable)) :=
    @Parses.operate .subtract ['5'] ['-', 'x'] _ _ hfive.base.single.summand hsigned
  obtain ⟨hrefused, hchain⟩ := accepts_isExpression_refusals hparses
  refine ⟨hrefused.mpr (Or.inl rfl), ?_⟩
  have hpasses := hchain ['x'] .variable Parses.variable.base (by decide) 3
  exact hpasses.2.2 ['2'] _ htwo (by decide) (by decide)

end FunctionGraph.Formula
