import FunctionGraph.Formula.Acceptance
import FunctionGraph.Proofs.Formula.Neighbours

/-!
# What each check says

The checks of a text are scans that carry the character before them. Here each is stated as a condition
on the pieces of the text, so that the comparison with the grammar does not run a scan again.
-/

namespace FunctionGraph.Formula

/-! ### Characters -/

theorem all_withoutPowers (text : List Char) :
    (withoutPowers text).all isAllowed = text.all isAllowed := by
  have hstar : isAllowed '*' = true := by decide
  fun_induction withoutPowers text with
  | case1 => rfl
  | case2 rest ih => rw [ih, List.all_cons, List.all_cons, hstar, Bool.true_and, Bool.true_and]
  | case3 c rest _ ih => rw [List.all_cons, List.all_cons, ih]

theorem hasAllowedChars_iff {text : List Char} :
    hasAllowedChars text = true ↔ withoutPowers text ≠ [] ∧ ∀ c ∈ text, isAllowed c = true := by
  rw [hasAllowedChars, all_withoutPowers, Bool.and_eq_true, List.all_eq_true]
  simp

theorem withoutPowers_ne_nil {c : Char} (hc : c ≠ '*') (rest : List Char) :
    withoutPowers (c :: rest) ≠ [] := by
  have hstar : ∀ behind, c = '*' → rest = '*' :: behind → False := fun _ heq _ => hc heq
  rw [withoutPowers.eq_3 c rest hstar]
  exact List.cons_ne_nil _ _

theorem isAllowed_iff {c : Char} :
    isAllowed c = true ↔ canBegin c = true ∨ c = ')' ∨ c = '+' ∨ c = '*' ∨ c = '/' := by
  simp only [isAllowed, canBegin, Bool.or_eq_true, beq_iff_eq]
  constructor
  · rintro (((((((h | h) | h) | h) | h) | h) | h) | h) <;> simp [h]
  · rintro ((((h | h) | h) | h) | h | h | h | h) <;> simp [h]

/-! ### Power signs -/

/-- Three characters in a row, where the list is taken apart at its head. -/
theorem forall_triple_cons {P : Char → Prop} {c : Char} {rest : List Char} :
    (∀ b, [b, '*', '*'] <:+: c :: rest → P b)
      ↔ (['*', '*'] <+: rest → P c) ∧ ∀ b, [b, '*', '*'] <:+: rest → P b := by
  simp only [List.infix_cons_iff, List.cons_prefix_cons]
  constructor
  · intro h
    exact ⟨fun hrest => h c (Or.inl ⟨rfl, hrest⟩), fun b hb => h b (Or.inr hb)⟩
  · rintro ⟨hhead, htail⟩ b (⟨rfl, hrest⟩ | hb)
    · exact hhead hrest
    · exact htail b hb

theorem powersHaveBases_iff {previous : Option Char} {text : List Char} :
    powersHaveBases previous text = true
      ↔ (['*', '*'] <+: text → previous.any endsOperand = true)
        ∧ ∀ b, [b, '*', '*'] <:+: text → endsOperand b = true := by
  fun_induction powersHaveBases previous text with
  | case1 previous rest ih =>
    have hsplit : (∀ b, [b, '*', '*'] <:+: '*' :: '*' :: rest → endsOperand b = true) ↔ _ :=
      forall_triple_cons
    rw [Bool.and_eq_true, ih, hsplit]
    simp
  | case2 previous c rest hstar ih =>
    have hnone : ¬['*', '*'] <+: c :: rest := by
      intro h
      obtain ⟨hc, behind, hbehind⟩ := List.cons_prefix_cons.mp h
      exact hstar behind hc.symm hbehind.symm
    rw [ih, forall_triple_cons]
    simp [hnone]
  | case3 => simp

/-! ### Operators -/

theorem pair_infix_cons {a b c d : Char} {rest : List Char} :
    [c, d] <:+: a :: b :: rest ↔ (c = a ∧ d = b) ∨ [c, d] <:+: b :: rest := by
  rw [List.infix_cons_iff, List.cons_prefix_cons, List.cons_prefix_cons]
  simp

/-- Two operator signs side by side that the scan of them lets pass. Behind a power sign it passes any:
the pair that begins with the second star is never looked at. -/
theorem operators_of_infix {previous : Option Char} {text : List Char}
    (h : operatorsAreApart previous text = true) {c d : Char} (hpair : [c, d] <:+: text)
    (hc : isOperatorSign c = true) (hd : isOperatorSign d = true) :
    (c = '*' ∧ (d = '*' ∨ ['*', '*', d] <:+: text)) ∨ (c = '-' ∧ d = '-') := by
  have hweaken : ∀ {e : Char} {rest : List Char},
      (c = '*' ∧ (d = '*' ∨ ['*', '*', d] <:+: rest)) ∨ (c = '-' ∧ d = '-')
        → (c = '*' ∧ (d = '*' ∨ ['*', '*', d] <:+: e :: rest)) ∨ (c = '-' ∧ d = '-') := by
    rintro e rest (⟨rfl, hd | hpower⟩ | hminus)
    · exact Or.inl ⟨rfl, Or.inl hd⟩
    · exact Or.inl ⟨rfl, Or.inr (List.infix_cons_iff.mpr (Or.inr hpower))⟩
    · exact Or.inr hminus
  fun_induction operatorsAreApart previous text with
  | case1 previous a b rest _ hstars ih =>
    simp only [Bool.and_eq_true, beq_iff_eq] at hstars
    obtain ⟨rfl, rfl⟩ := hstars
    rcases pair_infix_cons.mp hpair with ⟨rfl, rfl⟩ | hpair
    · exact Or.inl ⟨rfl, Or.inl rfl⟩
    · rcases List.infix_cons_iff.mp hpair with hhead | hpair
      · have hpower : ['*', c, d] <+: '*' :: '*' :: rest := List.cons_prefix_cons.mpr ⟨rfl, hhead⟩
        obtain ⟨rfl, -⟩ := List.cons_prefix_cons.mp hhead
        exact Or.inl ⟨rfl, Or.inr hpower.isInfix⟩
      · exact hweaken (hweaken (ih h hpair))
  | case2 previous a b rest _ _ ih =>
    simp only [Bool.and_eq_true, beq_iff_eq] at h
    obtain ⟨⟨⟨ha, hb⟩, -⟩, h⟩ := h
    rcases pair_infix_cons.mp hpair with ⟨rfl, rfl⟩ | hpair
    · exact Or.inr ⟨ha, hb⟩
    · exact hweaken (ih h hpair)
  | case3 previous a b rest hsigns ih =>
    rcases pair_infix_cons.mp hpair with ⟨rfl, rfl⟩ | hpair
    · exact absurd (by rw [hc, hd]; rfl) hsigns
    · exact hweaken (ih h hpair)
  | case4 previous text hshort =>
    obtain ⟨before, behind, rfl⟩ := hpair
    cases before with
    | nil => exact absurd rfl (hshort c d behind)
    | cons e before => cases before <;> exact absurd rfl (hshort _ _ _)

/-! ### Operands -/

theorem operandsAreJoined_iff {text : List Char} :
    operandsAreJoined text = true ↔ text.IsChain fun c d =>
      endsOperand c = true → startsOperand d = true → isDigit c = true ∧ isDigit d = true := by
  fun_induction operandsAreJoined text with
  | case1 c d rest ih =>
    rw [List.isChain_cons_cons, Bool.and_eq_true, ih]
    refine and_congr_left fun _ => ?_
    cases endsOperand c <;> cases startsOperand d <;> simp
  | case2 text hshort =>
    refine iff_of_true rfl ?_
    match text, hshort with
    | [], _ => exact List.isChain_nil
    | [c], _ => exact List.isChain_singleton c
    | c :: d :: rest, hshort => exact absurd rfl (hshort c d rest)

/-! ### Parentheses -/

theorem forall_prefix_cons {P : List Char → Prop} {c : Char} {rest : List Char} :
    (∀ before, before <+: c :: rest → P before)
      ↔ P [] ∧ ∀ before, before <+: rest → P (c :: before) := by
  constructor
  · intro h
    exact ⟨h [] List.nil_prefix, fun before hbefore => h _ (List.cons_prefix_cons.mpr ⟨rfl, hbefore⟩)⟩
  · rintro ⟨hnil, hcons⟩ before hbefore
    rcases List.prefix_cons_iff.mp hbefore with rfl | ⟨tail, rfl, htail⟩
    · exact hnil
    · exact hcons tail htail

/-- Parentheses nest when they are as many, and no prefix closes more than it opens. -/
theorem nests_iff {depth : Nat} {text : List Char} :
    nests depth text = true
      ↔ (∀ before, before <+: text → before.count ')' ≤ depth + before.count '(')
        ∧ text.count ')' = depth + text.count '(' := by
  induction text generalizing depth with
  | nil =>
    simp only [nests, List.prefix_nil, forall_eq, List.count_nil, beq_iff_eq]
    omega
  | cons c rest ih =>
    rw [forall_prefix_cons]
    by_cases hopening : c = '('
    · subst hopening
      have hne : '(' ≠ ')' := by decide
      rw [nests, if_pos rfl, ih]
      simp only [List.count_cons_self, List.count_cons_of_ne hne, List.count_nil,
        Nat.add_right_comm depth 1, Nat.add_assoc]
      simp
    · by_cases hclosing : c = ')'
      · subst hclosing
        have hne : ')' ≠ '(' := by decide
        rw [nests, if_neg hopening, if_pos rfl, Bool.and_eq_true, decide_eq_true_eq, ih]
        simp only [List.count_cons_self, List.count_cons_of_ne hne, List.count_nil]
        constructor
        · rintro ⟨hdepth, hprefix, hcount⟩
          refine ⟨⟨Nat.zero_le _, ?_⟩, by omega⟩
          intro before hbefore
          have hle := hprefix before hbefore
          omega
        · rintro ⟨⟨-, hprefix⟩, hcount⟩
          have hdepth := hprefix [] List.nil_prefix
          simp only [List.count_nil] at hdepth
          refine ⟨by omega, ?_, by omega⟩
          intro before hbefore
          have hle := hprefix before hbefore
          omega
      · rw [nests_of_ne hopening hclosing, ih]
        simp [List.count_cons_of_ne hopening, List.count_cons_of_ne hclosing]

end FunctionGraph.Formula
