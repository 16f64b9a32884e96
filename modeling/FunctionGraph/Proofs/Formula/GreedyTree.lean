import FunctionGraph.Proofs.Formula.Frames
import FunctionGraph.Proofs.Formula.Tokens

/-!
# A reading follows the greedy tree

Reading the tokens of a greedy tree leaves frames of the tree open, so the state behind them does not
hold the tree itself. What holds on every level is that closing the open frames gives what closing
behind the finished tree gives. A product sign closes less than the end does, and that is where greed
comes in: in front of a product sign no exponent may still go on.
-/

namespace FunctionGraph.Formula

namespace Expr

/-- The number of characters the expression is written with. -/
def width : Expr → Nat
  | .number literal => literal.text.length
  | .variable => 1
  | .group inner => inner.width + 2
  | .negate inner => inner.width + 1
  | .power base exponent => base.width + 2 + exponent.width
  | .binary _ left right => left.width + 1 + right.width

/-- The divisors in the expression when it is written from position `start` on. -/
def divisorsFrom (start : Nat) : Expr → List Divisor
  | .number _ | .variable => []
  | .group inner | .negate inner => inner.divisorsFrom (start + 1)
  | .power base exponent =>
    base.divisorsFrom start ++ exponent.divisorsFrom (start + base.width + 2)
  | .binary operation left right =>
    let stop := start + left.width + 1 + right.width
    left.divisorsFrom start ++ right.divisorsFrom (start + left.width + 1)
      ++ (if operation = .divide then [⟨right, stop⟩] else [])

theorem map_divisorsFrom (start : Nat) (expr : Expr) :
    (expr.divisorsFrom start).map Divisor.expr = expr.divisors := by
  induction expr generalizing start with
  | number _ | «variable» => rfl
  | group inner ih | negate inner ih => exact ih (start + 1)
  | power base exponent ihbase ihexponent =>
    simp [divisorsFrom, divisors, ihbase, ihexponent]
  | binary operation left right ihleft ihright =>
    by_cases hdivide : operation = .divide <;>
      simp [divisorsFrom, divisors, ihleft, ihright, hdivide]

end Expr

namespace Progress

/-- The progress behind a finished expression, with the frames that were open in front of it. -/
def past (p : Progress) (expr : Expr) : Progress :=
  ⟨p.stack, p.cursor + expr.width, (expr.divisorsFrom p.cursor).reverse ++ p.divisors⟩

end Progress

/-- The state that reading the tokens of `expr` from `p` on leads to. Closing in front of a product sign
gives the expression only if that sign does not belong to an exponent, and a power sign must find the
expression itself. -/
structure ReadsTo (limit : Nat) (level : Level) (expr : Expr) (p q : Progress) (operand : Expr) :
    Prop where
  run : expr.tokens.foldl (State.read limit) (.expecting p) = .holding q operand
  atEnd : q.collapse false operand = (p.past expr).collapse false expr
  atProduct : level ≤ .product → expr.endsInPower = false →
    q.collapse true operand = (p.past expr).collapse true expr
  atPower : level = .factor → expr.isNegation = false → q = p.past expr ∧ operand = expr

section Step

variable {limit : Nat}

theorem push_eq_expecting {p : Progress} {token : Token} {frame : Frame}
    (h : nesting (frame :: p.stack) ≤ limit) :
    p.push limit token frame
      = .expecting ⟨frame :: p.stack, p.cursor + token.width, p.divisors⟩ := by
  rw [Progress.push, if_neg (by omega)]
  rfl

theorem readsTo_number {literal : List Char} (h : IsNumber literal) (p : Progress) :
    ReadsTo limit .factor (.number (.ofText literal)) p
      (p.past (.number (.ofText literal))) (.number (.ofText literal)) := by
  have hsome : (Number.readNumeral literal).isSome = true :=
    (isSome_readNumeral_iff h.1).mpr h
  refine ⟨?_, rfl, fun _ _ => rfl, fun _ _ => ⟨rfl, rfl⟩⟩
  change p.readOperand limit (.number literal) = _
  rw [Progress.readOperand, if_pos hsome]
  rfl

theorem readsTo_variable (p : Progress) :
    ReadsTo limit .factor .variable p (p.past .variable) .variable :=
  ⟨rfl, rfl, fun _ _ => rfl, fun _ _ => ⟨rfl, rfl⟩⟩

theorem ReadsTo.group {inner : Expr} {p q : Progress} {operand : Expr}
    (hnesting : nesting (.group :: p.stack) ≤ limit)
    (h : ReadsTo limit .sum inner ⟨.group :: p.stack, p.cursor + 1, p.divisors⟩ q operand) :
    ReadsTo limit .factor (.group inner) p (p.past (.group inner)) (.group inner) := by
  have hclosed : q.collapse false operand
      = (Progress.past ⟨.group :: p.stack, p.cursor + 1, p.divisors⟩ inner, inner) := by
    rw [h.atEnd]
    exact Progress.collapse_eq_self (Level.le_sum _) inner
  refine ⟨?_, rfl, fun _ _ => rfl, fun _ _ => ⟨rfl, rfl⟩⟩
  have hopening : State.read limit (.expecting p) .opening
      = .expecting ⟨.group :: p.stack, p.cursor + 1, p.divisors⟩ := push_eq_expecting hnesting
  have hclosing : State.read limit (.holding q operand) .closing
      = .holding (p.past (.group inner)) (.group inner) := by
    change q.readEnd .closing operand = _
    rw [Progress.readEnd, hclosed]
    have hcursor : p.cursor + 1 + inner.width + 1 = p.cursor + (inner.width + 2) := by omega
    simp [Progress.past, Progress.advance, Token.width, Token.text, Expr.width, Expr.divisorsFrom,
      hcursor]
  rw [Expr.tokens, List.cons_append, List.foldl_cons, hopening, List.foldl_append, h.run]
  exact hclosing

theorem collapse_past_negate (inProduct : Bool) (p : Progress) (inner : Expr) :
    (Progress.past ⟨.negate :: p.stack, p.cursor + 1, p.divisors⟩ inner).collapse inProduct inner
      = (p.past (.negate inner)).collapse inProduct (.negate inner) := by
  have hcursor : p.cursor + 1 + inner.width = p.cursor + (inner.width + 1) := by omega
  rw [Progress.past, Progress.collapse_negate, hcursor]
  rfl

theorem ReadsTo.negate {inner : Expr} {p q : Progress} {operand : Expr}
    (hnesting : nesting (.negate :: p.stack) ≤ limit)
    (h : ReadsTo limit .power inner ⟨.negate :: p.stack, p.cursor + 1, p.divisors⟩ q operand) :
    ReadsTo limit .factor (.negate inner) p q operand := by
  refine ⟨?_, ?_, ?_, ?_⟩
  · have hminus : State.read limit (.expecting p) .minus
        = .expecting ⟨.negate :: p.stack, p.cursor + 1, p.divisors⟩ := push_eq_expecting hnesting
    rw [Expr.tokens, List.foldl_cons, hminus, h.run]
  · rw [h.atEnd, collapse_past_negate]
  · intro _ hends
    rw [h.atProduct (by decide) hends, collapse_past_negate]
  · intro _ hnegation
    contradiction

theorem collapse_past_power (p : Progress) (base exponent : Expr) :
    (Progress.past ⟨.power base :: p.stack, (p.past base).cursor + 2, (p.past base).divisors⟩
        exponent).collapse false exponent
      = (p.past (.power base exponent)).collapse false (.power base exponent) := by
  have hcursor : p.cursor + base.width + 2 + exponent.width
      = p.cursor + (base.width + 2 + exponent.width) := by omega
  rw [Progress.past, Progress.collapse_power]
  simp [Progress.past, Expr.width, Expr.divisorsFrom, hcursor]

theorem ReadsTo.power {base exponent : Expr} {p q r : Progress} {atom operand : Expr}
    (hnesting : nesting (.power base :: p.stack) ≤ limit) (hnegation : base.isNegation = false)
    (hbase : ReadsTo limit .factor base p q atom)
    (hexponent : ReadsTo limit .product exponent
      ⟨.power base :: p.stack, (p.past base).cursor + 2, (p.past base).divisors⟩ r operand) :
    ReadsTo limit .power (.power base exponent) p r operand := by
  obtain ⟨rfl, rfl⟩ := hbase.atPower rfl hnegation
  refine ⟨?_, ?_, ?_, ?_⟩
  · have hpower : State.read limit (.holding (p.past atom) atom) .power
        = .expecting ⟨.power atom :: p.stack, (p.past atom).cursor + 2, (p.past atom).divisors⟩ :=
      push_eq_expecting hnesting
    rw [Expr.tokens, List.foldl_append, hbase.run, List.foldl_cons, hpower, hexponent.run]
  · rw [hexponent.atEnd, collapse_past_power]
  · intro _ hends
    contradiction
  · intro hlevel
    contradiction

theorem collapse_past_binary {inProduct : Bool} (p : Progress) (operation : Operation)
    (left right : Expr) (h : inProduct = true → operation.isProduct = true) :
    (Progress.past ⟨.binary operation left :: p.stack, (p.past left).cursor + 1,
        (p.past left).divisors⟩ right).collapse inProduct right
      = (p.past (.binary operation left right)).collapse inProduct
          (.binary operation left right) := by
  have hcursor : p.cursor + left.width + 1 + right.width
      = p.cursor + (left.width + 1 + right.width) := by omega
  rw [Progress.past, Progress.collapse_binary _ _ _ _ _ _ h]
  by_cases hdivide : operation = .divide <;>
    simp [Progress.past, Expr.width, Expr.divisorsFrom, hdivide, hcursor]

@[simp]
theorem Operation.width_token (operation : Operation) : operation.token.width = 1 := by
  cases operation <;> rfl

theorem readOperator_token (operation : Operation) (p : Progress) (operand : Expr) :
    p.readOperator limit operation.token operand
      = p.pushBinary limit operation.token operation operand := by
  cases operation <;> rfl

theorem ReadsTo.binary {operation : Operation} {left right : Expr} {p q r : Progress}
    {first second : Expr} (hlevel : operation.level ≤ operandLevel p.stack)
    (hnesting : nesting (.binary operation left :: p.stack) ≤ limit)
    (hends : operation.isProduct = true → left.endsInPower = false)
    (hleft : ReadsTo limit operation.level left p q first)
    (hright : ReadsTo limit operation.operandLevel right
      ⟨.binary operation left :: p.stack, (p.past left).cursor + 1, (p.past left).divisors⟩
      r second) :
    ReadsTo limit operation.level (.binary operation left right) p r second := by
  have hclosed : q.collapse operation.isProduct first = (p.past left, left) := by
    have hcollapse : q.collapse operation.isProduct first
        = (p.past left).collapse operation.isProduct left := by
      cases hproduct : operation.isProduct with
      | false => exact hleft.atEnd
      | true => exact hleft.atProduct (operation.level_le_product_iff.mpr hproduct) (hends hproduct)
    rw [hcollapse]
    exact Progress.collapse_eq_self (p := p.past left) hlevel left
  refine ⟨?_, ?_, ?_, ?_⟩
  · have hoperator : State.read limit (.holding q first) operation.token
        = .expecting ⟨.binary operation left :: p.stack, (p.past left).cursor + 1,
            (p.past left).divisors⟩ := by
      change q.readOperator limit operation.token first = _
      rw [readOperator_token, Progress.pushBinary, hclosed, ← operation.width_token]
      exact push_eq_expecting hnesting
    rw [Expr.tokens, List.foldl_append, hleft.run, List.foldl_cons, hoperator, hright.run]
  · rw [hright.atEnd, collapse_past_binary _ _ _ _ (by simp)]
  · intro hle hends'
    have hproduct : operation.isProduct = true := operation.level_le_product_iff.mp hle
    have hle' : operation.operandLevel ≤ .product := by
      rw [Operation.operandLevel, if_pos hproduct]
      decide
    rw [hright.atProduct hle' hends', collapse_past_binary _ _ _ _ (fun _ => hproduct)]
  · intro hfactor
    rw [Operation.level] at hfactor
    split at hfactor <;> contradiction

theorem ReadsTo.mono {low high : Level} {expr : Expr} {p q : Progress} {operand : Expr}
    (h : ReadsTo limit low expr p q operand) (hle : low ≤ high) (hhigh : high ≠ .factor) :
    ReadsTo limit high expr p q operand :=
  ⟨h.run, h.atEnd, fun hproduct => h.atProduct (Level.le_trans hle hproduct),
    fun hfactor => absurd hfactor hhigh⟩

end Step

/-- Reading a greedy tree of a level that the open frames wait for does not fail. -/
theorem exists_readsTo {limit : Nat} {level : Level} {text : List Char} {expr : Expr}
    (h : Parses level text expr) (hgreedy : expr.isGreedy = true) (p : Progress)
    (hlevel : level ≤ operandLevel p.stack) (hnesting : nesting p.stack + expr.nesting ≤ limit) :
    ∃ q operand, ReadsTo limit level expr p q operand := by
  induction h generalizing p with
  | number h => exact ⟨_, _, readsTo_number h p⟩
  | «variable» => exact ⟨_, _, readsTo_variable p⟩
  | @group text inner h ih =>
    rw [Expr.nesting] at hnesting
    have hframe : nesting (.group :: p.stack) = nesting p.stack + 4 := by
      simp [nesting, Frame.weight, Nat.add_comm]
    obtain ⟨q, operand, hinner⟩ := ih hgreedy ⟨.group :: p.stack, p.cursor + 1, p.divisors⟩
      (Level.le_sum _) (by rw [hframe]; omega)
    exact ⟨_, _, hinner.group (by omega)⟩
  | @negate text inner h ih =>
    rw [Expr.nesting] at hnesting
    have hframe : nesting (.negate :: p.stack) = nesting p.stack + 2 := by
      simp [nesting, Frame.weight, Nat.add_comm]
    obtain ⟨q, operand, hinner⟩ := ih hgreedy ⟨.negate :: p.stack, p.cursor + 1, p.divisors⟩
      (Nat.le_refl _) (by rw [hframe]; omega)
    exact ⟨_, _, hinner.negate (by omega)⟩
  | base h ih =>
    obtain ⟨q, operand, hfactor⟩ := ih hgreedy p
      (Level.le_trans (by decide) (power_le_operandLevel p.stack)) hnesting
    exact ⟨q, operand, hfactor.mono (by decide) (by decide)⟩
  | @raise left right base exponent hbase hexponent ihbase ihexponent =>
    simp only [Expr.isGreedy, Bool.and_eq_true, Bool.not_eq_true'] at hgreedy
    obtain ⟨⟨hnegation, hbase⟩, hexponent⟩ := hgreedy
    rw [Expr.nesting] at hnesting
    have hframe : nesting (.power base :: p.stack) = nesting p.stack + 2 := by
      simp [nesting, Frame.weight, Nat.add_comm]
    obtain ⟨q, atom, hq⟩ := ihbase hbase p
      (Level.le_trans (by decide) (power_le_operandLevel p.stack)) (by omega)
    obtain ⟨r, operand, hr⟩ := ihexponent hexponent
      ⟨.power base :: p.stack, (p.past base).cursor + 2, (p.past base).divisors⟩
      (Nat.le_refl _) (by rw [hframe]; omega)
    exact ⟨r, operand, hq.power (by omega) hnegation hr⟩
  | single h ih =>
    obtain ⟨q, operand, hpower⟩ := ih hgreedy p (power_le_operandLevel p.stack) hnesting
    exact ⟨q, operand, hpower.mono (by decide) (by decide)⟩
  | summand h ih =>
    obtain ⟨q, operand, hproduct⟩ := ih hgreedy p (Level.le_trans (by decide) hlevel) hnesting
    exact ⟨q, operand, hproduct.mono (by decide) (by decide)⟩
  | @operate operation left right a b hleft hright ihleft ihright =>
    simp only [Expr.isGreedy, Bool.and_eq_true, Bool.not_eq_true'] at hgreedy
    obtain ⟨⟨hends, hleft⟩, hright⟩ := hgreedy
    rw [Expr.nesting] at hnesting
    have hframe : nesting (.binary operation a :: p.stack) = nesting p.stack := by
      simp [nesting, Frame.weight]
    obtain ⟨q, first, hq⟩ := ihleft hleft p hlevel (by omega)
    obtain ⟨r, second, hr⟩ := ihright hright
      ⟨.binary operation a :: p.stack, (p.past a).cursor + 1, (p.past a).divisors⟩
      (Nat.le_refl _) (by rw [hframe]; omega)
    refine ⟨r, second, hq.binary hlevel (by omega) ?_ hr⟩
    intro hproduct
    simpa [hproduct] using hends

/-- **The greedy tree is read.** When it does not nest too deeply, reading its tokens gives the tree and
its divisors. -/
theorem readTokens_tokens {limit : Nat} {text : List Char} {expr : Expr} (h : Parses .sum text expr)
    (hgreedy : expr.isGreedy = true) (hnesting : expr.nesting ≤ limit) :
    readTokens limit (tokens text) = ⟨expr.divisorsFrom 0, .ok expr⟩ := by
  obtain ⟨q, operand, hread⟩ := exists_readsTo h hgreedy .start (Level.le_sum _)
    (by simpa [Progress.start, nesting] using hnesting)
  have hclosed : q.collapse false operand = (Progress.past .start expr, expr) := by
    rw [hread.atEnd]
    exact Progress.collapse_eq_self (Level.le_sum _) expr
  rw [readTokens, h.tokens_eq, hread.run, State.finish, hclosed]
  simp [Progress.past, Progress.start]

end FunctionGraph.Formula
