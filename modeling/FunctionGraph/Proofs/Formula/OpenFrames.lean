import FunctionGraph.Proofs.Formula.Frames
import FunctionGraph.Proofs.Formula.Tokens

/-!
# What a reading gives is a greedy tree

The invariant of a reading is about its open frames: written one after the other they are the tokens
read so far, each holds greedy trees of the level it needs, and an operation stands only where the
frame around it waits for something as loose. A tree that comes out at the end is then a greedy tree of
the whole text, whatever the limit on nesting was.
-/

namespace FunctionGraph.Formula

/-- The tree can be read at the level, and is greedy. -/
def IsGreedyAt (level : Level) (expr : Expr) : Prop :=
  Parses level (textOf expr.tokens) expr ∧ expr.isGreedy = true

/-- The tokens that opened the frame. -/
def Frame.tokens : Frame → List Token
  | .group => [.opening]
  | .negate => [.minus]
  | .power base => base.tokens ++ [.power]
  | .binary operation left => left.tokens ++ [operation.token]

def openedTokens : List Frame → List Token
  | [] => []
  | frame :: stack => openedTokens stack ++ frame.tokens

/-- The frame holds what it may hold in front of the frames around it. -/
def Frame.IsSound (around : List Frame) : Frame → Prop
  | .group | .negate => True
  | .power base => IsGreedyAt .factor base ∧ base.isNegation = false
  | .binary operation left =>
    operation.level ≤ operandLevel around ∧ IsGreedyAt operation.level left
      ∧ (operation.isProduct = true → left.endsInPower = false)

def AreSound : List Frame → Prop
  | [] => True
  | frame :: stack => frame.IsSound stack ∧ AreSound stack

namespace IsGreedyAt

theorem mono {low high : Level} {expr : Expr} (h : IsGreedyAt low expr) (hle : low ≤ high) :
    IsGreedyAt high expr :=
  ⟨h.1.mono hle, h.2⟩

theorem number {literal : List Char} (h : IsNumber literal) :
    IsGreedyAt .factor (.number (.ofText literal)) := by
  refine ⟨?_, rfl⟩
  have htext : textOf (Expr.number (.ofText literal)).tokens = literal := by
    simp [Expr.tokens, Token.text, Literal.ofText]
  rw [htext]
  exact .number h

theorem «variable» : IsGreedyAt .factor .variable :=
  ⟨.variable, rfl⟩

theorem group {inner : Expr} (h : IsGreedyAt .sum inner) : IsGreedyAt .factor (.group inner) := by
  refine ⟨?_, h.2⟩
  have htext : textOf (Expr.group inner).tokens = '(' :: (textOf inner.tokens ++ [')']) := by
    simp [Expr.tokens, Token.text]
  rw [htext]
  exact .group h.1

theorem negate {inner : Expr} (h : IsGreedyAt .power inner) : IsGreedyAt .factor (.negate inner) :=
  ⟨.negate h.1, h.2⟩

theorem power {base exponent : Expr} (hbase : IsGreedyAt .factor base)
    (hnegation : base.isNegation = false) (hexponent : IsGreedyAt .product exponent) :
    IsGreedyAt .power (.power base exponent) := by
  refine ⟨?_, by simp [Expr.isGreedy, hnegation, hbase.2, hexponent.2]⟩
  have htext : textOf (Expr.power base exponent).tokens
      = textOf base.tokens ++ '*' :: '*' :: textOf exponent.tokens := by
    simp [Expr.tokens, Token.text]
  rw [htext]
  exact .raise hbase.1 hexponent.1

theorem binary {operation : Operation} {left right : Expr} (hleft : IsGreedyAt operation.level left)
    (hends : operation.isProduct = true → left.endsInPower = false)
    (hright : IsGreedyAt operation.operandLevel right) :
    IsGreedyAt operation.level (.binary operation left right) := by
  have hgreedy : (operation.isProduct && left.endsInPower) = false := by
    cases hproduct : operation.isProduct with
    | false => rfl
    | true => simp [hends hproduct]
  refine ⟨?_, by simp only [Expr.isGreedy, hgreedy, hleft.2, hright.2]; rfl⟩
  have htext : textOf (Expr.binary operation left right).tokens
      = textOf left.tokens ++ operation.sign :: textOf right.tokens := by
    have hsign : operation.token.text = [operation.sign] := by cases operation <;> rfl
    simp [Expr.tokens, hsign]
  rw [htext]
  exact .operate hleft.1 hright.1

end IsGreedyAt

/-- What closing frames leaves: the same tokens, in sound frames that wait for something as loose as
what closes them, and a greedy tree that can stand there. -/
structure IsClosed (inProduct : Bool) (ts : List Token) (closed : Progress × Expr) : Prop where
  sound : AreSound closed.1.stack
  waits : closedLevel inProduct ≤ operandLevel closed.1.stack
  greedy : IsGreedyAt (closedLevel inProduct) closed.2
  ends : inProduct = true → closed.2.endsInPower = false
  tokens_eq : openedTokens closed.1.stack ++ closed.2.tokens = ts

theorem Closes.isClosed {inProduct : Bool} {start closed : Progress × Expr}
    (h : Closes inProduct start closed) (hsound : AreSound start.1.stack)
    (hoperand : IsGreedyAt (operandLevel start.1.stack) start.2)
    (hproduct : inProduct = true → IsGreedyAt .product start.2 ∧ start.2.endsInPower = false) :
    IsClosed inProduct (openedTokens start.1.stack ++ start.2.tokens) closed := by
  induction h with
  | stop hwaits =>
    refine ⟨hsound, hwaits, ?_, fun h => (hproduct h).2, rfl⟩
    cases inProduct with
    | false => exact hoperand.mono (Level.le_sum _)
    | true => exact (hproduct rfl).1
  | @negate stack cursor divisors operand closed _ ih =>
    have hnegate : IsGreedyAt .factor (.negate operand) := hoperand.negate
    have hclosed := ih hsound.2
      (hnegate.mono (Level.le_trans (by decide) (power_le_operandLevel stack)))
      (fun h => ⟨hnegate.mono (by decide), (hproduct h).2⟩)
    simpa [openedTokens, Frame.tokens, Expr.tokens] using hclosed
  | @power stack cursor divisors base operand closed hend _ ih =>
    obtain ⟨⟨hbase, hnegation⟩, hstack⟩ := hsound
    have hpower : IsGreedyAt .power (.power base operand) := hbase.power hnegation hoperand
    have hclosed := ih hstack (hpower.mono (power_le_operandLevel stack))
      (fun h => absurd (hend.symm.trans h) Bool.false_ne_true)
    simpa [openedTokens, Frame.tokens, Expr.tokens] using hclosed
  | @binary stack cursor divisors completed operation left operand closed hisProduct _ ih =>
    obtain ⟨⟨haround, hleft, hends⟩, hstack⟩ := hsound
    have hbinary : IsGreedyAt operation.level (.binary operation left operand) :=
      hleft.binary hends hoperand
    have hclosed := ih hstack (hbinary.mono haround)
      (fun h => ⟨hbinary.mono (operation.level_le_product_iff.mpr (hisProduct h)),
        (hproduct h).2⟩)
    simpa [openedTokens, Frame.tokens, Expr.tokens] using hclosed

/-- The state is sound for the tokens that led to it. -/
def State.IsSound (seen : List Token) : State → Prop
  | .expecting p => AreSound p.stack ∧ openedTokens p.stack = seen
  | .holding p operand =>
    AreSound p.stack ∧ openedTokens p.stack ++ operand.tokens = seen ∧ IsGreedyAt .factor operand
      ∧ operand.isNegation = false
  | .stopped _ _ => True

section Step

variable {limit : Nat} {seen : List Token} {p : Progress} {token : Token} {operand : Expr}

theorem isSound_push {frame : Frame} {q : Progress} (hframe : frame.IsSound q.stack)
    (hstack : AreSound q.stack) (hseen : openedTokens q.stack ++ frame.tokens = seen ++ [token]) :
    (q.push limit token frame).IsSound (seen ++ [token]) := by
  unfold Progress.push
  dsimp only
  split
  · trivial
  · exact ⟨⟨hframe, hstack⟩, hseen⟩

theorem isSound_readOperand (h : (State.expecting p).IsSound seen) (htoken : token.IsProper) :
    (p.readOperand limit token).IsSound (seen ++ [token]) := by
  obtain ⟨hsound, hseen⟩ := h
  cases token with
  | minus | opening => exact isSound_push trivial hsound (by rw [hseen]; rfl)
  | «variable» => exact ⟨hsound, by rw [← hseen]; rfl, .variable, rfl⟩
  | number literal =>
    unfold Progress.readOperand
    dsimp only
    split
    · next hsome =>
      have hnumber : IsNumber literal := (isSome_readNumeral_iff htoken.2).mp hsome
      exact ⟨hsound, by rw [← hseen]; rfl, .number hnumber, rfl⟩
    · trivial
  | plus | times | «over» | power | closing | other _ => trivial

theorem isSound_pushBinary (operation : Operation) (h : (State.holding p operand).IsSound seen) :
    (p.pushBinary limit operation.token operation operand).IsSound (seen ++ [operation.token]) := by
  obtain ⟨hsound, hseen, hoperand, hnegation⟩ := h
  have hclosed := (closes_collapse operation.isProduct p operand).isClosed hsound
    (hoperand.mono (Level.le_trans (by decide) (power_le_operandLevel p.stack)))
    (fun _ => ⟨hoperand.mono (by decide), hoperand.1.endsInPower_of_factor rfl hnegation⟩)
  refine isSound_push ⟨hclosed.waits, hclosed.greedy, hclosed.ends⟩ hclosed.sound ?_
  rw [Frame.tokens, ← List.append_assoc, hclosed.tokens_eq, hseen]

theorem isClosed_atEnd (h : (State.holding p operand).IsSound seen) :
    IsClosed false seen (p.collapse false operand) := by
  obtain ⟨hsound, rfl, hoperand, -⟩ := h
  exact (closes_collapse false p operand).isClosed hsound
    (hoperand.mono (Level.le_trans (by decide) (power_le_operandLevel p.stack)))
    (fun h => absurd h Bool.false_ne_true)

/-- A frame that waits for a sum is a group. -/
theorem eq_group_of_sum_le {frame : Frame} (h : .sum ≤ frame.level) : frame = .group := by
  cases frame with
  | group => rfl
  | negate | power _ => exact absurd h (by simp [Frame.level, Level.le_iff, Level.rank])
  | binary operation _ =>
    cases operation <;>
      exact absurd h (by simp [Frame.level, Operation.operandLevel, Operation.isProduct,
        Level.le_iff, Level.rank])

theorem isSound_readEnd (h : (State.holding p operand).IsSound seen) :
    (p.readEnd token operand).IsSound (seen ++ [token]) := by
  have hclosed := isClosed_atEnd h
  unfold Progress.readEnd
  dsimp only
  split
  · next stack hstack =>
    have hsound := hclosed.sound
    have hwaits := hclosed.waits
    have htokens := hclosed.tokens_eq
    rw [hstack] at hsound hwaits htokens
    obtain rfl := eq_group_of_sum_le hwaits
    refine ⟨hsound.2, ?_, hclosed.greedy.group, rfl⟩
    rw [← htokens]
    simp [openedTokens, Frame.tokens, Expr.tokens]
  · trivial
  · split <;> trivial

theorem isSound_readOperator (h : (State.holding p operand).IsSound seen) :
    (p.readOperator limit token operand).IsSound (seen ++ [token]) := by
  cases token with
  | plus => exact isSound_pushBinary .add h
  | minus => exact isSound_pushBinary .subtract h
  | times => exact isSound_pushBinary .multiply h
  | «over» => exact isSound_pushBinary .divide h
  | power =>
    obtain ⟨hsound, hseen, hoperand, hnegation⟩ := h
    refine isSound_push ⟨hoperand, hnegation⟩ hsound ?_
    rw [Frame.tokens, ← List.append_assoc, hseen]
  | number _ | «variable» | opening | closing | other _ => exact isSound_readEnd h

theorem State.IsSound.read {state : State} (h : state.IsSound seen) (htoken : token.IsProper) :
    (state.read limit token).IsSound (seen ++ [token]) := by
  cases state with
  | expecting p => exact isSound_readOperand h htoken
  | holding p operand => exact isSound_readOperator h
  | stopped stop divisors => trivial

theorem State.IsSound.foldl {state : State} (h : state.IsSound seen) {ts : List Token}
    (hts : ∀ t ∈ ts, t.IsProper) : (ts.foldl (State.read limit) state).IsSound (seen ++ ts) := by
  induction ts generalizing state seen with
  | nil => simpa using h
  | cons t ts ih =>
    have hnext : (state.read limit t).IsSound (seen ++ [t]) := h.read (hts t List.mem_cons_self)
    have hrest := ih hnext fun u hu => hts u (List.mem_cons_of_mem _ hu)
    simpa using hrest

end Step

/-- **Only greedy trees are read.** A tree that a reading gives is a greedy tree of the tokens. -/
theorem isGreedyAt_of_readTokens {limit : Nat} {ts : List Token} (hts : ∀ t ∈ ts, t.IsProper)
    {expr : Expr} (h : (readTokens limit ts).ending = .ok expr) :
    IsGreedyAt .sum expr ∧ expr.tokens = ts := by
  have hstart : (State.expecting .start).IsSound [] := ⟨trivial, rfl⟩
  have hstate : (ts.foldl (State.read limit) (.expecting .start)).IsSound ([] ++ ts) :=
    hstart.foldl hts
  rw [readTokens] at h
  cases hfinal : ts.foldl (State.read limit) (.expecting .start) with
  | expecting p => simp [hfinal, State.finish] at h
  | stopped stop divisors => simp [hfinal, State.finish] at h
  | holding p operand =>
    rw [hfinal, List.nil_append] at hstate
    have hclosed := isClosed_atEnd hstate
    rw [hfinal, State.finish] at h
    dsimp only at h
    split at h
    · next hstack =>
      have htokens := hclosed.tokens_eq
      rw [hstack, Except.ok.inj h] at htokens
      exact ⟨Except.ok.inj h ▸ hclosed.greedy, htokens⟩
    · contradiction

end FunctionGraph.Formula
