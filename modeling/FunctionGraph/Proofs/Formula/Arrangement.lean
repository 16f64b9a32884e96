import FunctionGraph.Proofs.Formula.GreedyTree
import FunctionGraph.Proofs.Formula.OpenFrames

/-!
# The language of the grammar, token by token

Whether a text is an expression does not need a tree: it is enough that operands and operators take
turns, that the parentheses nest, and that the numbers are numbers. A reading of such a text never
stops, so it ends with a greedy tree, and this is why every expression has one.
-/

namespace FunctionGraph.Formula

namespace Token

/-- May stand where an operand is expected. -/
def beginsOperand : Token → Bool
  | .number _ | .variable | .opening | .minus => true
  | _ => false

/-- May stand behind an operand. -/
def followsOperand : Token → Bool
  | .plus | .minus | .times | .over | .power | .closing => true
  | _ => false

/-- Leaves an operand behind it. -/
def completesOperand : Token → Bool
  | .number _ | .variable | .closing => true
  | _ => false

/-- May stand behind an operand, or where one is expected. -/
def mayStand (holding : Bool) (t : Token) : Bool :=
  if holding then t.followsOperand else t.beginsOperand

end Token

/-- Operands and operators take turns, and an operand comes last. -/
def takeTurns (holding : Bool) : List Token → Bool
  | [] => holding
  | t :: ts => t.mayStand holding && takeTurns t.completesOperand ts

/-- With `depth` groups open in front of the text, every group is closed in it and no other. -/
def nests (depth : Nat) : List Char → Bool
  | [] => depth == 0
  | c :: rest =>
    if c = '(' then nests (depth + 1) rest
    else if c = ')' then decide (0 < depth) && nests (depth - 1) rest
    else nests depth rest

/-! ### Every expression is arranged in this way -/

theorem nests_of_ne {c : Char} (hopening : c ≠ '(') (hclosing : c ≠ ')') (depth : Nat)
    (rest : List Char) : nests depth (c :: rest) = nests depth rest := by
  rw [nests, if_neg hopening, if_neg hclosing]

theorem nests_append_of_numeric {run : List Char} (h : run.all isNumeric = true) (depth : Nat)
    (rest : List Char) : nests depth (run ++ rest) = nests depth rest := by
  induction run with
  | nil => rfl
  | cons c run ih =>
    simp only [List.all_cons, Bool.and_eq_true] at h
    have hopening : c ≠ '(' := by
      rintro rfl
      exact absurd h.1 (by decide)
    have hclosing : c ≠ ')' := by
      rintro rfl
      exact absurd h.1 (by decide)
    rw [List.cons_append, nests_of_ne hopening hclosing, ih h.2]

theorem Parses.nests_append {level : Level} {text : List Char} {expr : Expr}
    (h : Parses level text expr) (depth : Nat) (rest : List Char) :
    nests depth (text ++ rest) = nests depth rest := by
  induction h generalizing depth rest with
  | number h => exact nests_append_of_numeric h.1 depth rest
  | «variable» => rfl
  | @group text inner _ ih =>
    have hclosing : nests (depth + 1) (')' :: rest) = nests depth rest := by
      rw [nests, if_neg (by decide), if_pos rfl]
      simp
    rw [List.cons_append, nests, if_pos rfl, List.append_assoc, ih, List.singleton_append, hclosing]
  | @negate text inner _ ih =>
    rw [List.cons_append, nests_of_ne (by decide) (by decide), ih]
  | base _ ih | single _ ih | summand _ ih => exact ih depth rest
  | @raise left right base exponent _ _ ihbase ihexponent =>
    rw [List.append_assoc, ihbase, List.cons_append, List.cons_append,
      nests_of_ne (by decide) (by decide), nests_of_ne (by decide) (by decide), ihexponent]
  | @operate operation left right a b _ _ ihleft ihright =>
    have hopening : operation.sign ≠ '(' := by cases operation <;> decide
    have hclosing : operation.sign ≠ ')' := by cases operation <;> decide
    rw [List.append_assoc, ihleft, List.cons_append, nests_of_ne hopening hclosing, ihright]

theorem takeTurns_token (operation : Operation) (ts : List Token) :
    takeTurns true (operation.token :: ts) = takeTurns false ts := by
  cases operation <;> rfl

theorem Parses.takeTurns_append {level : Level} {text : List Char} {expr : Expr}
    (h : Parses level text expr) (ts : List Token) :
    takeTurns false (expr.tokens ++ ts) = takeTurns true ts := by
  induction h generalizing ts with
  | number _ | «variable» => rfl
  | @group text inner _ ih =>
    have hclosing : takeTurns true (.closing :: ts) = takeTurns true ts := rfl
    rw [Expr.tokens, List.cons_append, List.cons_append, List.append_assoc, List.singleton_append,
      ← hclosing, ← ih]
    rfl
  | @negate text inner _ ih =>
    rw [Expr.tokens, List.cons_append, ← ih]
    rfl
  | base _ ih | single _ ih | summand _ ih => exact ih ts
  | @raise left right base exponent _ _ ihbase ihexponent =>
    have hpower : takeTurns true (.power :: (exponent.tokens ++ ts))
        = takeTurns false (exponent.tokens ++ ts) := rfl
    rw [Expr.tokens, List.append_assoc, ihbase, List.cons_append, hpower, ihexponent]
  | @operate operation left right a b _ _ ihleft ihright =>
    rw [Expr.tokens, List.append_assoc, ihleft, List.cons_append, takeTurns_token, ihright]

theorem Parses.isNumber_of_mem {level : Level} {text : List Char} {expr : Expr}
    (h : Parses level text expr) {literal : List Char} (hmem : .number literal ∈ expr.tokens) :
    IsNumber literal := by
  induction h with
  | number h =>
    obtain rfl : literal = _ := by simpa [Expr.tokens, Literal.ofText] using hmem
    exact h
  | «variable» => simp [Expr.tokens] at hmem
  | group _ ih | negate _ ih => exact ih (by simpa [Expr.tokens] using hmem)
  | base _ ih | single _ ih | summand _ ih => exact ih hmem
  | raise _ _ ihbase ihexponent =>
    have hcases := hmem
    simp only [Expr.tokens, List.mem_append, List.mem_cons, reduceCtorEq, false_or] at hcases
    exact hcases.elim ihbase ihexponent
  | @operate operation _ _ _ _ _ _ ihleft ihright =>
    have hsign : Token.number literal ≠ operation.token := by
      cases operation <;> simp [Operation.token]
    have hcases := hmem
    simp only [Expr.tokens, List.mem_append, List.mem_cons, hsign, false_or] at hcases
    exact hcases.elim ihleft ihright

/-! ### A reading of an arranged text never stops -/

/-- What is still to be read continues the state, and the limit leaves room for it. -/
def State.Fits (limit : Nat) (ts : List Token) : State → Prop
  | .expecting p =>
    takeTurns false ts = true ∧ nests (p.stack.count .group) (textOf ts) = true
      ∧ nesting p.stack + 4 * ts.length ≤ limit
  | .holding p _ =>
    takeTurns true ts = true ∧ nests (p.stack.count .group) (textOf ts) = true
      ∧ nesting p.stack + 4 * ts.length ≤ limit
  | .stopped _ _ => False

theorem Closes.stack_eq {inProduct : Bool} {start closed : Progress × Expr}
    (h : Closes inProduct start closed) :
    closedLevel inProduct ≤ operandLevel closed.1.stack
      ∧ closed.1.stack.count .group = start.1.stack.count .group
      ∧ nesting closed.1.stack ≤ nesting start.1.stack := by
  induction h with
  | stop hwaits => exact ⟨hwaits, rfl, Nat.le_refl _⟩
  | negate _ ih | power _ _ ih | binary _ _ ih =>
    obtain ⟨hwaits, hcount, hnesting⟩ := ih
    refine ⟨hwaits, by simpa using hcount, Nat.le_trans hnesting ?_⟩
    simp [nesting]

theorem collapse_stack_eq (inProduct : Bool) (p : Progress) (operand : Expr) :
    closedLevel inProduct ≤ operandLevel (p.collapse inProduct operand).1.stack
      ∧ (p.collapse inProduct operand).1.stack.count .group = p.stack.count .group
      ∧ nesting (p.collapse inProduct operand).1.stack ≤ nesting p.stack :=
  (closes_collapse inProduct p operand).stack_eq

section Step

variable {limit : Nat} {p : Progress} {operand : Expr} {token : Token} {ts : List Token}

theorem Frame.weight_le (frame : Frame) : frame.weight ≤ 4 := by
  cases frame <;> simp [Frame.weight]

theorem fits_push {frame : Frame} (hturns : takeTurns false ts = true)
    (hnests : nests ((frame :: p.stack).count .group) (textOf ts) = true)
    (hroom : nesting p.stack + 4 * (ts.length + 1) ≤ limit) :
    (p.push limit token frame).Fits limit ts := by
  have hweight := frame.weight_le
  have hnesting : nesting (frame :: p.stack) = frame.weight + nesting p.stack := by
    simp [nesting]
  rw [push_eq_expecting (by omega)]
  refine ⟨hturns, hnests, ?_⟩
  change nesting (frame :: p.stack) + 4 * ts.length ≤ limit
  omega

theorem fits_readOperand (h : (State.expecting p).Fits limit (token :: ts))
    (hnumber : ∀ literal, token = .number literal → IsNumber literal) :
    (p.readOperand limit token).Fits limit ts := by
  obtain ⟨hturns, hnests, hroom⟩ := h
  rw [takeTurns, Bool.and_eq_true] at hturns
  obtain ⟨hmay, hturns⟩ := hturns
  rw [List.length_cons] at hroom
  cases token with
  | minus =>
    refine fits_push hturns ?_ hroom
    rw [List.count_cons_of_ne (by decide), ← nests_of_ne (c := '-') (by decide) (by decide)]
    exact hnests
  | opening =>
    refine fits_push hturns ?_ hroom
    rw [List.count_cons_self]
    exact hnests
  | «variable» =>
    refine ⟨hturns, ?_, Nat.le_trans ?_ hroom⟩
    · rw [← nests_of_ne (c := 'x') (by decide) (by decide)]
      exact hnests
    · change nesting p.stack + 4 * ts.length ≤ _
      omega
  | number literal =>
    have hliteral := hnumber literal rfl
    have hsome := (isSome_readNumeral_iff hliteral.1).mpr hliteral
    rw [Progress.readOperand, if_pos hsome]
    refine ⟨hturns, ?_, Nat.le_trans ?_ hroom⟩
    · rw [← nests_append_of_numeric hliteral.1]
      exact hnests
    · change nesting p.stack + 4 * ts.length ≤ _
      omega
  | plus | times | «over» | power | closing | other _ => contradiction

theorem fits_pushBinary (operation : Operation)
    (h : (State.holding p operand).Fits limit (operation.token :: ts)) :
    (p.pushBinary limit operation.token operation operand).Fits limit ts := by
  obtain ⟨hturns, hnests, hroom⟩ := h
  obtain ⟨-, hcount, hnesting⟩ := collapse_stack_eq operation.isProduct p operand
  rw [List.length_cons] at hroom
  refine fits_push ?_ ?_ (by omega)
  · rw [← takeTurns_token operation]
    exact hturns
  · have htext : operation.token.text = [operation.sign] := by cases operation <;> rfl
    have hopening : operation.sign ≠ '(' := by cases operation <;> decide
    have hclosing : operation.sign ≠ ')' := by cases operation <;> decide
    rw [List.count_cons_of_ne (by simp), hcount]
    rw [textOf_cons, htext, List.singleton_append, nests_of_ne hopening hclosing] at hnests
    exact hnests

theorem fits_readEnd (h : (State.holding p operand).Fits limit (.closing :: ts)) :
    (p.readEnd .closing operand).Fits limit ts := by
  obtain ⟨hturns, hnests, hroom⟩ := h
  obtain ⟨hwaits, hcount, hnesting⟩ := collapse_stack_eq false p operand
  have hclosing : nests (p.stack.count .group) (textOf (.closing :: ts))
      = (decide (0 < p.stack.count .group)
        && nests (p.stack.count .group - 1) (textOf ts)) := by
    rw [textOf_cons, Token.text, List.singleton_append, nests, if_neg (by decide), if_pos rfl]
  rw [hclosing, Bool.and_eq_true, decide_eq_true_eq] at hnests
  obtain ⟨hopen, hnests⟩ := hnests
  rw [List.length_cons] at hroom
  unfold Progress.readEnd
  dsimp only
  cases hstack : (p.collapse false operand).1.stack with
  | nil =>
    rw [hstack, List.count_nil] at hcount
    omega
  | cons frame stack =>
    rw [hstack] at hwaits hcount hnesting
    obtain rfl := eq_group_of_sum_le hwaits
    rw [List.count_cons_self] at hcount
    have hweight : nesting (.group :: stack) = 4 + nesting stack := by simp [nesting, Frame.weight]
    refine ⟨hturns, ?_, ?_⟩
    · change nests (stack.count .group) (textOf ts) = true
      rw [show stack.count .group = p.stack.count .group - 1 by omega]
      exact hnests
    · change nesting stack + 4 * ts.length ≤ limit
      omega

theorem State.Fits.read {state : State} (h : state.Fits limit (token :: ts))
    (hnumber : ∀ literal, token = .number literal → IsNumber literal) :
    (state.read limit token).Fits limit ts := by
  cases state with
  | expecting p => exact fits_readOperand h hnumber
  | stopped stop divisors => contradiction
  | holding p operand =>
    cases token with
    | plus => exact fits_pushBinary .add h
    | minus => exact fits_pushBinary .subtract h
    | times => exact fits_pushBinary .multiply h
    | «over» => exact fits_pushBinary .divide h
    | closing => exact fits_readEnd h
    | power =>
      obtain ⟨hturns, hnests, hroom⟩ := h
      refine fits_push hturns ?_ hroom
      rw [List.count_cons_of_ne (by simp)]
      rw [textOf_cons, Token.text, List.cons_append, List.singleton_append,
        nests_of_ne (by decide) (by decide), nests_of_ne (by decide) (by decide)] at hnests
      exact hnests
    | number _ | «variable» | opening | other _ => exact absurd h.1 Bool.false_ne_true

theorem State.Fits.foldl {state : State} (h : state.Fits limit ts)
    (hnumber : ∀ literal, .number literal ∈ ts → IsNumber literal) :
    (ts.foldl (State.read limit) state).Fits limit [] := by
  induction ts generalizing state with
  | nil => exact h
  | cons t ts ih =>
    refine ih (h.read ?_) fun literal hmem => hnumber literal (List.mem_cons_of_mem _ hmem)
    rintro literal rfl
    exact hnumber literal List.mem_cons_self

theorem State.Fits.exists_ending {state : State} (h : state.Fits limit []) :
    ∃ expr, state.finish.ending = .ok expr := by
  cases state with
  | expecting p => exact absurd h.1 Bool.false_ne_true
  | stopped stop divisors => contradiction
  | holding p operand =>
    obtain ⟨-, hnests, -⟩ := h
    obtain ⟨hwaits, hcount, -⟩ := collapse_stack_eq false p operand
    have hzero : p.stack.count .group = 0 := by simpa [nests] using hnests
    unfold State.finish
    dsimp only
    cases hstack : (p.collapse false operand).1.stack with
    | nil => exact ⟨_, rfl⟩
    | cons frame stack =>
      rw [hstack] at hwaits hcount
      obtain rfl := eq_group_of_sum_le hwaits
      rw [List.count_cons_self] at hcount
      omega

end Step

/-- The tokens of the text take turns, its parentheses nest and its numbers are numbers. -/
structure IsArranged (text : List Char) : Prop where
  turns : takeTurns false (tokens text) = true
  nests : nests 0 text = true
  numbers : ∀ literal, .number literal ∈ tokens text → IsNumber literal

theorem IsArranged.exists_greedy {text : List Char} (h : IsArranged text) :
    ∃ expr, Parses .sum text expr ∧ expr.isGreedy = true := by
  have hstart : (State.expecting .start).Fits (4 * (tokens text).length) (tokens text) := by
    refine ⟨h.turns, ?_, by simp [Progress.start, nesting]⟩
    rw [textOf_tokens]
    exact h.nests
  obtain ⟨expr, hexpr⟩ := (hstart.foldl h.numbers).exists_ending
  obtain ⟨hgreedy, htokens⟩ := isGreedyAt_of_readTokens isProper_of_mem_tokens hexpr
  have hparses := hgreedy.1
  rw [htokens, textOf_tokens] at hparses
  exact ⟨expr, hparses, hgreedy.2⟩

theorem Parses.isArranged {text : List Char} {expr : Expr} (h : Parses .sum text expr) :
    IsArranged text := by
  refine ⟨?_, ?_, ?_⟩
  · have hturns := h.takeTurns_append []
    rw [List.append_nil] at hturns
    rw [h.tokens_eq, hturns]
    rfl
  · have hnests := h.nests_append 0 []
    rw [List.append_nil] at hnests
    rw [hnests]
    rfl
  · intro literal hmem
    rw [h.tokens_eq] at hmem
    exact h.isNumber_of_mem hmem

theorem isExpression_iff_isArranged {text : List Char} : IsExpression text ↔ IsArranged text := by
  constructor
  · rintro ⟨expr, h⟩
    exact h.isArranged
  · intro h
    obtain ⟨expr, hparses, -⟩ := h.exists_greedy
    exact ⟨expr, hparses⟩

/-- **The greedy tree.** Every expression has exactly one. -/
theorem existsUnique_greedy {text : List Char} (h : IsExpression text) :
    ∃! expr, Parses .sum text expr ∧ expr.isGreedy = true := by
  obtain ⟨expr, hparses, hgreedy⟩ := (isExpression_iff_isArranged.mp h).exists_greedy
  refine ⟨expr, ⟨hparses, hgreedy⟩, ?_⟩
  rintro other ⟨hparses', hgreedy'⟩
  -- Under a limit that suits both trees, the reading gives both.
  have hread := readTokens_tokens hparses hgreedy (Nat.le_max_left expr.nesting other.nesting)
  have hread' := readTokens_tokens hparses' hgreedy' (Nat.le_max_right expr.nesting other.nesting)
  have hending := congrArg Reading.ending (hread'.symm.trans hread)
  exact Except.ok.inj hending

end FunctionGraph.Formula
