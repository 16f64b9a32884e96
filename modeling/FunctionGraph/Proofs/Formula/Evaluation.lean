import FunctionGraph.Proofs.Formula.Arrangement

/-!
# An evaluation computes the grammar

What is evaluated is exactly the language of the grammar. The value is that of the greedy tree, unless
one of the divisors in this tree is zero, and then the division is refused. What the value of a tree is
say the rules of `Evaluates`: they name the operation of each node, and they divide by no zero.
-/

namespace FunctionGraph.Formula

/-! ### Values of trees -/

/-- The values of expressions at `x`. A division by zero has none, nor has an expression with one in it. -/
inductive Evaluates (x : Float) : Expr → Float → Prop where
  | number (literal : Literal) : Evaluates x (.number literal) (Number.read literal.text)
  | variable : Evaluates x .variable x
  | group {inner : Expr} {a : Float} (h : Evaluates x inner a) : Evaluates x (.group inner) a
  | negate {inner : Expr} {a : Float} (h : Evaluates x inner a) : Evaluates x (.negate inner) (-a)
  | power {base exponent : Expr} {a b : Float} (hbase : Evaluates x base a)
      (hexponent : Evaluates x exponent b) : Evaluates x (.power base exponent) (Float.pow a b)
  | add {left right : Expr} {a b : Float} (hleft : Evaluates x left a) (hright : Evaluates x right b) :
      Evaluates x (.binary .add left right) (a + b)
  | subtract {left right : Expr} {a b : Float} (hleft : Evaluates x left a)
      (hright : Evaluates x right b) : Evaluates x (.binary .subtract left right) (a - b)
  | multiply {left right : Expr} {a b : Float} (hleft : Evaluates x left a)
      (hright : Evaluates x right b) : Evaluates x (.binary .multiply left right) (a * b)
  | divide {left right : Expr} {a b : Float} (hleft : Evaluates x left a) (hright : Evaluates x right b)
      (hnonzero : (b == 0) = false) : Evaluates x (.binary .divide left right) (a / b)

section Values

variable {x : Float} {expr : Expr}

theorem Evaluates.eq_value {value : Float} (h : Evaluates x expr value) : value = expr.value x := by
  induction h with
  | number literal => exact literal.value_eq.symm
  | «variable» => rfl
  | group _ ih => exact ih
  | negate _ ih => rw [ih, Expr.value]
  | power _ _ ihbase ihexponent => rw [ihbase, ihexponent, Expr.value]
  | add _ _ ihleft ihright | subtract _ _ ihleft ihright | multiply _ _ ihleft ihright
  | divide _ _ _ ihleft ihright => rw [ihleft, ihright, Expr.value, Operation.apply]

theorem Evaluates.divisors_nonzero {value : Float} (h : Evaluates x expr value) :
    ∀ d ∈ expr.divisors, (d.value x == 0) = false := by
  induction h with
  | number | «variable» => simp [Expr.divisors]
  | group _ ih | negate _ ih => exact ih
  | power _ _ ihbase ihexponent =>
    intro d hd
    exact (List.mem_append.mp hd).elim (ihbase d) (ihexponent d)
  | add _ _ ihleft ihright | subtract _ _ ihleft ihright | multiply _ _ ihleft ihright =>
    intro d hd
    simp only [Expr.divisors, reduceCtorEq, if_false, List.append_nil, List.mem_append] at hd
    exact hd.elim (ihleft d) (ihright d)
  | divide _ hright hnonzero ihleft ihright =>
    intro d hd
    simp only [Expr.divisors, if_true, List.mem_append, List.mem_singleton] at hd
    obtain (hd | hd) | rfl := hd
    · exact ihleft d hd
    · exact ihright d hd
    · rwa [← hright.eq_value]

theorem evaluates_value (h : ∀ d ∈ expr.divisors, (d.value x == 0) = false) :
    Evaluates x expr (expr.value x) := by
  induction expr with
  | number literal =>
    rw [Expr.value, literal.value_eq]
    exact .number literal
  | «variable» => exact .variable
  | group inner ih => exact .group (ih h)
  | negate inner ih => exact .negate (ih h)
  | power base exponent ihbase ihexponent =>
    obtain ⟨hbase, hexponent⟩ := List.forall_mem_append.mp h
    exact .power (ihbase hbase) (ihexponent hexponent)
  | binary operation left right ihleft ihright =>
    rw [Expr.divisors, List.forall_mem_append, List.forall_mem_append] at h
    obtain ⟨⟨hleft, hright⟩, hlast⟩ := h
    cases operation with
    | add => exact .add (ihleft hleft) (ihright hright)
    | subtract => exact .subtract (ihleft hleft) (ihright hright)
    | multiply => exact .multiply (ihleft hleft) (ihright hright)
    | divide => exact .divide (ihleft hleft) (ihright hright) (hlast right (List.mem_singleton_self _))

/-- An expression has a value just when none of its divisors is zero, and then it has one only. -/
theorem evaluates_iff {value : Float} :
    Evaluates x expr value
      ↔ (¬∃ d ∈ expr.divisors, (d.value x == 0) = true) ∧ value = expr.value x := by
  constructor
  · intro h
    refine ⟨?_, h.eq_value⟩
    rintro ⟨d, hd, hzero⟩
    rw [h.divisors_nonzero d hd] at hzero
    contradiction
  · rintro ⟨hnone, rfl⟩
    refine evaluates_value fun d hd => ?_
    by_contra hzero
    exact hnone ⟨d, hd, by simpa using hzero⟩

/-- A divisor has a value where the divisors in it are no zeros, so none is zero when none has the value
zero. -/
theorem divisors_nonzero_of_evaluates
    (h : ∀ d ∈ expr.divisors, ∀ z, Evaluates x d z → (z == 0) = false) :
    ∀ d ∈ expr.divisors, (d.value x == 0) = false := by
  induction expr with
  | number | «variable» => simp [Expr.divisors]
  | group inner ih | negate inner ih => exact ih h
  | power base exponent ihbase ihexponent =>
    rw [Expr.divisors, List.forall_mem_append] at h ⊢
    exact ⟨ihbase h.1, ihexponent h.2⟩
  | binary operation left right ihleft ihright =>
    rw [Expr.divisors, List.forall_mem_append, List.forall_mem_append] at h ⊢
    obtain ⟨⟨hleft, hright⟩, hlast⟩ := h
    have hvalue : Evaluates x right (right.value x) := evaluates_value (ihright hright)
    refine ⟨⟨ihleft hleft, ihright hright⟩, ?_⟩
    intro d hd
    obtain rfl : d = right := by
      split at hd
      · exact List.mem_singleton.mp hd
      · exact absurd hd List.not_mem_nil
    exact hlast d hd _ hvalue

theorem exists_evaluates_zero_iff :
    (∃ d ∈ expr.divisors, ∃ z, Evaluates x d z ∧ (z == 0) = true)
      ↔ ∃ d ∈ expr.divisors, (d.value x == 0) = true := by
  constructor
  · rintro ⟨d, hd, z, hvalue, hzero⟩
    rw [hvalue.eq_value] at hzero
    exact ⟨d, hd, hzero⟩
  · rintro ⟨d, hd, hzero⟩
    by_contra hnone
    have hnonzero : ∀ d ∈ expr.divisors, ∀ z, Evaluates x d z → (z == 0) = false := by
      intro d hd z hvalue
      by_contra hz
      exact hnone ⟨d, hd, z, hvalue, by simpa using hz⟩
    rw [divisors_nonzero_of_evaluates hnonzero d hd] at hzero
    contradiction

end Values

/-! ### What an evaluation comes to -/

theorem isExpression_of_evaluateWithin {limit : Nat} {text : List Char} {x value : Float}
    (h : evaluateWithin limit text x = .ok value) : IsExpression text := by
  unfold evaluateWithin Reading.evaluate at h
  split at h
  · contradiction
  · cases hending : (readTokens limit (tokens text)).ending with
    | error stop =>
      rw [hending] at h
      contradiction
    | ok expr =>
      obtain ⟨hgreedy, htokens⟩ := isGreedyAt_of_readTokens isProper_of_mem_tokens hending
      refine ⟨expr, ?_⟩
      have hparses := hgreedy.1
      rwa [htokens, textOf_tokens] at hparses

/-- Where a divisor ends plays no part in whether one is zero. -/
theorem find?_divisorsFrom_eq_none_iff (start : Nat) (expr : Expr) (x : Float) :
    (expr.divisorsFrom start).find? (fun divisor => divisor.expr.value x == 0) = none
      ↔ ¬∃ d ∈ expr.divisors, (d.value x == 0) = true := by
  rw [← Expr.map_divisorsFrom start, List.find?_eq_none]
  simp

theorem evaluateWithin_greedy {limit : Nat} {text : List Char} {expr : Expr}
    (h : Parses .sum text expr) (hgreedy : expr.isGreedy = true) (hnesting : expr.nesting ≤ limit)
    (x : Float) :
    evaluateWithin limit text x
      = if ∃ d ∈ expr.divisors, (d.value x == 0) = true then .error .divisionByZero
        else .ok (expr.value x) := by
  have hnone := find?_divisorsFrom_eq_none_iff 0 expr x
  rw [evaluateWithin, readTokens_tokens h hgreedy hnesting, Reading.evaluate]
  dsimp only
  split
  · next divisor hfind =>
    rw [if_pos]
    · rfl
    · by_contra hdivisors
      rw [hnone.mpr hdivisors] at hfind
      contradiction
  · next hfind =>
    rw [if_neg (hnone.mp hfind)]
    rfl

/-- **Evaluation computes the grammar.** Only expressions have a value. Every expression has one greedy
tree, and when this does not nest too deeply, an evaluation returns the value of the tree or refuses a
division by zero: this just when a divisor in the tree has a value equal to zero. -/
theorem evaluateWithin_computes_grammar (limit : Nat) (text : List Char) (x : Float) :
    (∀ value, evaluateWithin limit text x = .ok value → IsExpression text)
      ∧ (IsExpression text → ∃! expr, Parses .sum text expr ∧ expr.isGreedy = true)
      ∧ ∀ expr, Parses .sum text expr → expr.isGreedy = true → expr.nesting ≤ limit →
        (∀ value, evaluateWithin limit text x = .ok value ↔ Evaluates x expr value)
          ∧ (evaluateWithin limit text x = .error .divisionByZero
            ↔ ∃ d ∈ expr.divisors, ∃ z, Evaluates x d z ∧ (z == 0) = true)
          ∧ ((∃ value, evaluateWithin limit text x = .ok value)
            ∨ evaluateWithin limit text x = .error .divisionByZero) := by
  refine ⟨?_, existsUnique_greedy, ?_⟩
  · intro value h
    exact isExpression_of_evaluateWithin h
  · intro expr h hgreedy hnesting
    have houtcome := evaluateWithin_greedy h hgreedy hnesting x
    by_cases hzero : ∃ d ∈ expr.divisors, (d.value x == 0) = true
    · rw [if_pos hzero] at houtcome
      refine ⟨?_, ?_, .inr houtcome⟩
      · intro value
        rw [houtcome, evaluates_iff]
        exact ⟨fun hvalue => by contradiction, fun hvalue => absurd hzero hvalue.1⟩
      · exact iff_of_true houtcome (exists_evaluates_zero_iff.mpr hzero)
    · rw [if_neg hzero] at houtcome
      refine ⟨?_, ?_, .inl ⟨_, houtcome⟩⟩
      · intro value
        rw [houtcome, evaluates_iff, Except.ok.injEq, eq_comm]
        exact ⟨fun hvalue => ⟨hzero, hvalue⟩, And.right⟩
      · rw [houtcome, exists_evaluates_zero_iff]
        exact iff_of_false (fun hvalue => by contradiction) hzero

/-- In `-2**3/x` the exponent is `3/x` and the sign covers the whole power: at 2 the value is that of
`-(2**1.5)`, and at 0 the exponent divides by zero. -/
theorem evaluateWithin_power_of_quotient :
    Parses .sum ['-', '2', '*', '*', '3', '/', 'x']
        (.negate (.power (.number (.ofText ['2']))
          (.binary .divide (.number (.ofText ['3'])) .variable)))
      ∧ evaluateWithin 4 ['-', '2', '*', '*', '3', '/', 'x'] 2 = .ok (-Float.pow 2 1.5)
      ∧ evaluateWithin 4 ['-', '2', '*', '*', '3', '/', 'x'] 0 = .error .divisionByZero := by
  have htwo : Parses .factor ['2'] (.number (.ofText ['2'])) := .number (by decide)
  have hthree : Parses .factor ['3'] (.number (.ofText ['3'])) := .number (by decide)
  have hquotient : Parses .product ['3', '/', 'x']
      (.binary .divide (.number (.ofText ['3'])) .variable) :=
    @Parses.operate .divide ['3'] ['x'] _ _ hthree.base.single Parses.variable.base
  have hparses := (htwo.raise hquotient).negate.base.single.summand
  refine ⟨hparses, ?_, ?_⟩
  · have hvalue : Evaluates 2 (.negate (.power (.number (.ofText ['2']))
        (.binary .divide (.number (.ofText ['3'])) .variable)))
        (-Float.pow (Number.read ['2']) (Number.read ['3'] / 2)) :=
      .negate (.power (.number _) (.divide (.number _) .variable (by decide)))
    have hread : Number.read ['2'] = 2 ∧ Number.read ['3'] / 2 = 1.5 := by decide +kernel
    rw [hread.1, hread.2] at hvalue
    exact (((evaluateWithin_computes_grammar 4 _ 2).2.2 _ hparses (by decide) (by decide)).1 _).mpr hvalue
  · have hdivisor : ∃ z, Evaluates 0 .variable z ∧ (z == 0) = true := ⟨0, .variable, by decide⟩
    exact ((evaluateWithin_computes_grammar 4 _ 0).2.2 _ hparses (by decide) (by decide)).2.1.mpr
      ⟨.variable, by simp [Expr.divisors], hdivisor⟩

end FunctionGraph.Formula
