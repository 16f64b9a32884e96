import FunctionGraph.Formula.Reading

/-!
# The grammar of expressions

An expression is a sum of products, a product of powers, a power of a factor:

    sum     := product (("+" | "-") product)*
    product := power (("*" | "/") power)*
    power   := factor ("**" product)?
    factor  := "-" power | "(" sum ")" | "x" | number

A number is a run of digits and points with a digit and no second point. No rule puts two factors
side by side, so such a run is always as long as it can be.

The grammar is ambiguous: an exponent is a product again, and where it ends is open, and so is what a
sign covers. The greedy tree is the one that an evaluation follows.
-/

namespace FunctionGraph.Formula

inductive Level where
  | factor
  | power
  | product
  | sum
  deriving DecidableEq, Repr

namespace Level

/-- Looser levels rank higher. -/
def rank : Level → Nat
  | .factor => 0
  | .power => 1
  | .product => 2
  | .sum => 3

instance : LE Level := ⟨fun a b => a.rank ≤ b.rank⟩

instance (a b : Level) : Decidable (a ≤ b) :=
  inferInstanceAs (Decidable (a.rank ≤ b.rank))

theorem le_iff {a b : Level} : a ≤ b ↔ a.rank ≤ b.rank :=
  Iff.rfl

theorem le_trans {a b c : Level} (hab : a ≤ b) (hbc : b ≤ c) : a ≤ c :=
  Nat.le_trans hab hbc

theorem le_sum (level : Level) : level ≤ .sum := by
  cases level <;> decide

end Level

/-- Digits and points, with at least one digit and at most one point. -/
def IsNumber (literal : List Char) : Prop :=
  literal.all isNumeric = true ∧ literal.any isDigit = true ∧ literal.count '.' ≤ 1

instance (literal : List Char) : Decidable (IsNumber literal) :=
  inferInstanceAs (Decidable (_ ∧ _))

namespace Operation

def sign : Operation → Char
  | .add => '+'
  | .subtract => '-'
  | .multiply => '*'
  | .divide => '/'

/-- The level of what the operation gives. -/
def level (operation : Operation) : Level :=
  if operation.isProduct then .product else .sum

/-- The level of the right operand. -/
def operandLevel (operation : Operation) : Level :=
  if operation.isProduct then .power else .product

end Operation

/-- The text can be read at the level, and this is a tree of it. Repetitions group to the left. -/
inductive Parses : Level → List Char → Expr → Prop where
  | number {literal : List Char} (h : IsNumber literal) :
      Parses .factor literal (.number (.ofText literal))
  | variable : Parses .factor ['x'] .variable
  | group {text : List Char} {inner : Expr} (h : Parses .sum text inner) :
      Parses .factor ('(' :: (text ++ [')'])) (.group inner)
  | negate {text : List Char} {inner : Expr} (h : Parses .power text inner) :
      Parses .factor ('-' :: text) (.negate inner)
  | base {text : List Char} {expr : Expr} (h : Parses .factor text expr) : Parses .power text expr
  | raise {left right : List Char} {base exponent : Expr} (hbase : Parses .factor left base)
      (hexponent : Parses .product right exponent) :
      Parses .power (left ++ '*' :: '*' :: right) (.power base exponent)
  | single {text : List Char} {expr : Expr} (h : Parses .power text expr) :
      Parses .product text expr
  | summand {text : List Char} {expr : Expr} (h : Parses .product text expr) :
      Parses .sum text expr
  | operate {operation : Operation} {left right : List Char} {a b : Expr}
      (hleft : Parses operation.level left a) (hright : Parses operation.operandLevel right b) :
      Parses operation.level (left ++ operation.sign :: right) (.binary operation a b)

/-- The language of the grammar. -/
def IsExpression (text : List Char) : Prop :=
  ∃ expr, Parses .sum text expr

namespace Expr

def isNegation : Expr → Bool
  | .negate _ => true
  | _ => false

/-- The last thing in the expression is the exponent of a power. -/
def endsInPower : Expr → Bool
  | .power _ _ => true
  | .negate inner => inner.endsInPower
  | .binary _ _ right => right.endsInPower
  | .number _ | .variable | .group _ => false

/-- Every exponent goes as far right as it can, so a product never follows one on its level, and every
sign covers the whole power behind it, so it is never part of a base. -/
def isGreedy : Expr → Bool
  | .number _ | .variable => true
  | .group inner | .negate inner => inner.isGreedy
  | .power base exponent => !base.isNegation && base.isGreedy && exponent.isGreedy
  | .binary operation left right =>
    !(operation.isProduct && left.endsInPower) && left.isGreedy && right.isGreedy

/-- How deep constructs wait for what is behind them. -/
def nesting : Expr → Nat
  | .number _ | .variable => 0
  | .group inner => 4 + inner.nesting
  | .negate inner => 2 + inner.nesting
  | .power base exponent => max base.nesting (2 + exponent.nesting)
  | .binary _ left right => max left.nesting right.nesting

/-- The divisors in the expression, in the order in which they end. -/
def divisors : Expr → List Expr
  | .number _ | .variable => []
  | .group inner | .negate inner => inner.divisors
  | .power base exponent => base.divisors ++ exponent.divisors
  | .binary operation left right =>
    left.divisors ++ right.divisors ++ (if operation = .divide then [right] else [])

end Expr

/-! ### The levels contain each other -/

theorem Parses.mono {low high : Level} {text : List Char} {expr : Expr}
    (h : Parses low text expr) (hle : low ≤ high) : Parses high text expr := by
  cases low with
  | factor =>
    cases high with
    | factor => exact h
    | power => exact h.base
    | product => exact h.base.single
    | sum => exact h.base.single.summand
  | power =>
    cases high with
    | factor => exact absurd hle (by decide)
    | power => exact h
    | product => exact h.single
    | sum => exact h.single.summand
  | product =>
    cases high with
    | factor | power => exact absurd hle (by decide)
    | product => exact h
    | sum => exact h.summand
  | sum =>
    cases high with
    | factor | power | product => exact absurd hle (by decide)
    | sum => exact h

/-- A factor other than a negation is a number, the variable or a group. -/
theorem Parses.endsInPower_of_factor {level : Level} {text : List Char} {expr : Expr}
    (h : Parses level text expr) (hlevel : level = .factor) (hnegation : expr.isNegation = false) :
    expr.endsInPower = false := by
  cases h with
  | number _ | «variable» | group _ => rfl
  | negate _ | base _ | raise _ _ | single _ | summand _ => contradiction
  | operate _ _ =>
    rw [Operation.level] at hlevel
    split at hlevel <;> contradiction

/-! ### How an expression begins and ends -/

def canBegin (c : Char) : Bool :=
  isNumeric c || c == 'x' || c == '(' || c == '-'

def canEnd (c : Char) : Bool :=
  isNumeric c || c == 'x' || c == ')'

theorem IsNumber.ne_nil {literal : List Char} (h : IsNumber literal) : literal ≠ [] := by
  intro heq
  subst heq
  simp [IsNumber] at h

theorem IsNumber.isNumeric_of_mem {literal : List Char} (h : IsNumber literal) {c : Char}
    (hc : c ∈ literal) : isNumeric c = true :=
  List.all_eq_true.mp h.1 c hc

theorem Parses.begins {level : Level} {text : List Char} {expr : Expr}
    (h : Parses level text expr) : ∃ c rest, text = c :: rest ∧ canBegin c = true := by
  induction h with
  | @number literal h =>
    obtain ⟨c, rest, rfl⟩ := List.exists_cons_of_ne_nil h.ne_nil
    have hc : isNumeric c = true := h.isNumeric_of_mem List.mem_cons_self
    exact ⟨c, rest, rfl, by simp [canBegin, hc]⟩
  | «variable» => exact ⟨'x', [], rfl, by decide⟩
  | @group text _ _ _ => exact ⟨'(', text ++ [')'], rfl, by decide⟩
  | @negate text _ _ _ => exact ⟨'-', text, rfl, by decide⟩
  | base _ ih | single _ ih | summand _ ih => exact ih
  | raise _ _ ih _ | operate _ _ ih _ =>
    obtain ⟨c, rest, rfl, hc⟩ := ih
    exact ⟨c, _, rfl, hc⟩

theorem Parses.ends {level : Level} {text : List Char} {expr : Expr}
    (h : Parses level text expr) : ∃ rest c, text = rest ++ [c] ∧ canEnd c = true := by
  induction h with
  | @number literal h =>
    have hlast := List.dropLast_concat_getLast h.ne_nil
    have hc : isNumeric (literal.getLast h.ne_nil) = true :=
      h.isNumeric_of_mem (List.getLast_mem h.ne_nil)
    exact ⟨literal.dropLast, literal.getLast h.ne_nil, hlast.symm, by simp [canEnd, hc]⟩
  | «variable» => exact ⟨[], 'x', rfl, by decide⟩
  | @group text _ _ _ => exact ⟨'(' :: text, ')', by simp, by decide⟩
  | @negate _ _ _ ih =>
    obtain ⟨rest, c, rfl, hc⟩ := ih
    exact ⟨'-' :: rest, c, by simp, hc⟩
  | base _ ih | single _ ih | summand _ ih => exact ih
  | @raise left _ _ _ _ _ _ ih =>
    obtain ⟨rest, c, rfl, hc⟩ := ih
    exact ⟨left ++ '*' :: '*' :: rest, c, by simp, hc⟩
  | @operate operation left _ _ _ _ _ _ ih =>
    obtain ⟨rest, c, rfl, hc⟩ := ih
    exact ⟨left ++ operation.sign :: rest, c, by simp, hc⟩

/-! ### How numbers are read -/

theorem isDecimalDigit_eq_isDigit {c : Char} (hc : isNumeric c = true) :
    Text.isDecimalDigit c = isDigit c := by
  rw [isNumeric, Bool.or_eq_true] at hc
  rcases hc with hdigit | hpoint
  · have hbounds := hdigit
    simp only [isDigit, Bool.and_eq_true, decide_eq_true_eq] at hbounds
    obtain ⟨hlow, hhigh⟩ := hbounds
    have hlow' : 48 ≤ c.toNat := hlow
    have hhigh' : c.toNat < 58 := Nat.lt_succ_of_le hhigh
    simp [Text.isDecimalDigit, Text.digitValue?, Text.decimalZeros, hlow', hhigh',
      hdigit]
  · obtain rfl : c = '.' := by simpa using hpoint
    decide

theorem splitSign_of_numeric {literal : List Char} (h : literal.all isNumeric = true) :
    Number.splitSign literal = (false, literal) := by
  cases literal with
  | nil => rfl
  | cons c rest =>
    have hc : isNumeric c = true := List.all_eq_true.mp h c List.mem_cons_self
    unfold Number.splitSign
    split
    · next heq =>
      obtain ⟨rfl, -⟩ := List.cons.inj heq
      exact absurd hc (by decide)
    · next heq =>
      obtain ⟨rfl, -⟩ := List.cons.inj heq
      exact absurd hc (by decide)
    · rfl

theorem all_isDecimalDigit_iff {literal : List Char} (h : literal.all isNumeric = true) :
    literal.all Text.isDecimalDigit = true ↔ literal.count '.' = 0 := by
  rw [List.count_eq_zero, List.all_eq_true]
  constructor
  · intro hdigits hpoint
    exact absurd (hdigits '.' hpoint) (by decide)
  · intro hpoint c hc
    have hnumeric : isNumeric c = true := List.all_eq_true.mp h c hc
    rw [isDecimalDigit_eq_isDigit hnumeric]
    rw [isNumeric, Bool.or_eq_true] at hnumeric
    rcases hnumeric with hdigit | heq
    · exact hdigit
    · exact absurd (by simpa using heq : c = '.') (fun heq => hpoint (heq ▸ hc))

theorem any_isDigit_iff {literal : List Char} (h : literal.all isNumeric = true)
    (hdigits : literal.all Text.isDecimalDigit = true) :
    literal.any isDigit = true ↔ literal ≠ [] := by
  cases literal with
  | nil => simp
  | cons c rest =>
    have hc : isDigit c = true := by
      rw [← isDecimalDigit_eq_isDigit (List.all_eq_true.mp h c List.mem_cons_self)]
      exact List.all_eq_true.mp hdigits c List.mem_cons_self
    simp [hc]

/-- A run of digits and points is read as a number when it is one. -/
theorem isSome_readNumeral_iff {literal : List Char} (h : literal.all isNumeric = true) :
    (Number.readNumeral literal).isSome = true ↔ IsNumber literal := by
  have hsplit := List.takeWhile_append_dropWhile (p := Text.isDecimalDigit) (l := literal)
  have hwhole : (literal.takeWhile Text.isDecimalDigit).all Text.isDecimalDigit = true :=
    List.all_takeWhile
  unfold Number.readNumeral
  simp only [splitSign_of_numeric h]
  generalize literal.takeWhile Text.isDecimalDigit = whole at hsplit hwhole ⊢
  cases hrest : literal.dropWhile Text.isDecimalDigit with
  | nil =>
    rw [hrest, List.append_nil] at hsplit
    subst hsplit
    have hcount := (all_isDecimalDigit_iff h).mp hwhole
    have hany := any_isDigit_iff h hwhole
    cases whole <;> simp_all [IsNumber]
  | cons c fraction =>
    have hc : Text.isDecimalDigit c = false := by
      have hhead := List.head_dropWhile_not Text.isDecimalDigit (l := literal) (by simp [hrest])
      simpa [hrest] using hhead
    rw [hrest] at hsplit
    subst hsplit
    have hall := h
    simp only [List.all_append, List.all_cons, Bool.and_eq_true] at hall
    obtain ⟨hnumeric, hpoint, hfraction⟩ := hall
    obtain rfl : c = '.' := by
      rw [isDecimalDigit_eq_isDigit hpoint] at hc
      simpa [isNumeric, hc] using hpoint
    have hcount := (all_isDecimalDigit_iff hnumeric).mp hwhole
    have hany := any_isDigit_iff hnumeric hwhole
    have hnone : isDigit '.' = false := by decide
    by_cases hdigits : fraction.all Text.isDecimalDigit = true
    · have hcount' := (all_isDecimalDigit_iff hfraction).mp hdigits
      have hany' := any_isDigit_iff hfraction hdigits
      have hdigit : (whole ++ '.' :: fraction).any isDigit = true ↔ whole ≠ [] ∨ fraction ≠ [] := by
        rw [List.any_append, List.any_cons, hnone, Bool.false_or, Bool.or_eq_true, hany, hany']
      simp only [IsNumber, h, hdigit, List.count_append, List.count_cons_self, hcount, hcount']
      cases whole <;> cases fraction <;> simp [hdigits]
    · have hcount' : fraction.count '.' ≠ 0 := fun hzero =>
        hdigits ((all_isDecimalDigit_iff hfraction).mpr hzero)
      have hnot : ¬IsNumber (whole ++ '.' :: fraction) := by
        intro hnumber
        have hmore := hnumber.2.2
        rw [List.count_append, List.count_cons_self, hcount] at hmore
        omega
      simp [hnot, hdigits]

end FunctionGraph.Formula
