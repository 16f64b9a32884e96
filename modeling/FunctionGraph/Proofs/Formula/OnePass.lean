import FunctionGraph.Proofs.Formula.Frames

/-!
# Evaluation in one pass

An expression can also be evaluated while it is read. Values then take the place of trees, and a zero
divisor ends the evaluation as soon as it is complete, so that nothing behind it is looked at. Here this
is a machine of its own, with one value in each open construct. It has the outcome of reading first and
evaluating afterwards: at every point it stands where the reading stands, with the values at `x` of the
trees that are open there, until the first divisor that is zero at `x`.
-/

namespace FunctionGraph.Formula

namespace Computation

/-- An open construct, and the value that waits in it. -/
inductive Frame where
  | group
  | negate
  | power (base : Float)
  | binary (operation : Operation) (left : Float)

def Frame.weight : Frame → Nat
  | .group => 4
  | .negate => 2
  | .power _ => 2
  | .binary _ _ => 0

def nesting : List Frame → Nat
  | [] => 0
  | frame :: stack => frame.weight + nesting stack

/-- Computes the constructs that bind at least as tight as what comes next. A zero divisor ends this. -/
def close (inProduct : Bool) (cursor : Nat) :
    List Frame → Float → Except Stop (List Frame × Float)
  | .negate :: stack, value => close inProduct cursor stack (-value)
  | .power base :: stack, value =>
    if inProduct then .ok (.power base :: stack, value)
    else close inProduct cursor stack (Float.pow base value)
  | .binary operation left :: stack, value =>
    if inProduct && !operation.isProduct then .ok (.binary operation left :: stack, value)
    else if operation = .divide ∧ value == 0 then .error ⟨.divisionByZero, cursor⟩
    else close inProduct cursor stack (operation.apply left value)
  | .group :: stack, value => .ok (.group :: stack, value)
  | [], value => .ok ([], value)

end Computation

/-- An evaluation between two tokens: the open constructs, innermost first, and the number of characters
read. -/
inductive Computation where
  | expecting (stack : List Computation.Frame) (cursor : Nat)
  | holding (stack : List Computation.Frame) (cursor : Nat) (value : Float)
  | stopped (stop : Stop)

namespace Computation

def start : Computation :=
  .expecting [] 0

def push (limit : Nat) (stack : List Frame) (cursor : Nat) (token : Token) (frame : Frame) :
    Computation :=
  if nesting (frame :: stack) > limit then .stopped ⟨.nestedTooDeeply, cursor + token.width⟩
  else .expecting (frame :: stack) (cursor + token.width)

def readOperand (limit : Nat) (x : Float) (stack : List Frame) (cursor : Nat) (token : Token) :
    Computation :=
  match token with
  | .minus => push limit stack cursor token .negate
  | .opening => push limit stack cursor token .group
  | .variable => .holding stack (cursor + token.width) x
  | .number literal =>
    if (Number.readNumeral literal).isSome then
      .holding stack (cursor + token.width) (Number.read literal)
    else
      .stopped ⟨.invalidNumber literal, cursor + token.width⟩
  | _ => .stopped ⟨.notAnOperand, cursor⟩

def pushBinary (limit : Nat) (stack : List Frame) (cursor : Nat) (token : Token)
    (operation : Operation) (value : Float) : Computation :=
  match close operation.isProduct cursor stack value with
  | .error stop => .stopped stop
  | .ok (stack, left) => push limit stack cursor token (.binary operation left)

def readEnd (stack : List Frame) (cursor : Nat) (token : Token) (value : Float) : Computation :=
  match close false cursor stack value with
  | .error stop => .stopped stop
  | .ok (stack, inner) =>
    match stack, token with
    | _ :: stack, .closing => .holding stack (cursor + token.width) inner
    | _ :: _, _ => .stopped ⟨.unclosedGroup, cursor⟩
    | [], _ =>
      match token.text with
      | c :: _ => .stopped ⟨.unexpectedCharacter c, cursor⟩
      | [] => .stopped ⟨.unexpectedEnd, cursor⟩

def readOperator (limit : Nat) (stack : List Frame) (cursor : Nat) (token : Token) (value : Float) :
    Computation :=
  match token with
  | .power => push limit stack cursor token (.power value)
  | .plus => pushBinary limit stack cursor token .add value
  | .minus => pushBinary limit stack cursor token .subtract value
  | .times => pushBinary limit stack cursor token .multiply value
  | .over => pushBinary limit stack cursor token .divide value
  | _ => readEnd stack cursor token value

def read (limit : Nat) (x : Float) (computation : Computation) (token : Token) : Computation :=
  match computation with
  | .expecting stack cursor => readOperand limit x stack cursor token
  | .holding stack cursor value => readOperator limit stack cursor token value
  | .stopped stop => .stopped stop

def outcome : Computation → Except Stop Float
  | .expecting _ cursor => .error ⟨.unexpectedEnd, cursor⟩
  | .holding stack cursor value =>
    match close false cursor stack value with
    | .error stop => .error stop
    | .ok ([], whole) => .ok whole
    | .ok (_ :: _, _) => .error ⟨.unclosedGroup, cursor⟩
  | .stopped stop => .error stop

end Computation

/-! ### Where the reading and the computation stand -/

section Valued

variable (x : Float)

/-- The error of the first divisor that is zero, of divisors given latest first. -/
def zeroDivisor? (divisors : List Divisor) : Option Stop :=
  (divisors.reverse.find? fun divisor => divisor.expr.value x == 0).map
    fun divisor => ⟨.divisionByZero, divisor.stop⟩

def Frame.valued : Frame → Computation.Frame
  | .group => .group
  | .negate => .negate
  | .power base => .power (base.value x)
  | .binary operation left => .binary operation (left.value x)

/-- The error of a zero divisor, or else what it is that holds without one. -/
def unlessZero {α : Type} (divisors : List Divisor) (result : α) : Except Stop α :=
  match zeroDivisor? x divisors with
  | some stop => .error stop
  | none => .ok result

def State.divisors : State → List Divisor
  | .expecting p | .holding p _ => p.divisors
  | .stopped _ divisors => divisors

/-- Where a computation at `x` stands, as long as no divisor is zero. -/
def State.computed : State → Computation
  | .expecting p => .expecting (p.stack.map (Frame.valued x)) p.cursor
  | .holding p operand => .holding (p.stack.map (Frame.valued x)) p.cursor (operand.value x)
  | .stopped stop _ => .stopped stop

/-- Where a computation at `x` stands when the reading is in the state. -/
def State.valued (state : State) : Computation :=
  match zeroDivisor? x state.divisors with
  | some stop => .stopped stop
  | none => state.computed x

variable {x} {divisors : List Divisor} {p : Progress} {operand : Expr} {state : State} {stop : Stop}

@[simp]
theorem nesting_map_valued (stack : List Frame) :
    Computation.nesting (stack.map (Frame.valued x)) = nesting stack := by
  induction stack with
  | nil => rfl
  | cons frame stack ih =>
    have hweight : (frame.valued x).weight = frame.weight := by cases frame <;> rfl
    rw [List.map_cons, Computation.nesting, nesting, hweight, ih]

/-- An earlier divisor decides. -/
theorem zeroDivisor?_append (completed divisors : List Divisor) :
    zeroDivisor? x (completed ++ divisors)
      = (zeroDivisor? x divisors).or (zeroDivisor? x completed) := by
  rw [zeroDivisor?, List.reverse_append, List.find?_append, Option.map_or]
  rfl

theorem zeroDivisor?_append_of_eq_some (completed : List Divisor)
    (h : zeroDivisor? x divisors = some stop) : zeroDivisor? x (completed ++ divisors) = some stop := by
  rw [zeroDivisor?_append, h, Option.some_or]

theorem zeroDivisor?_singleton (operand : Expr) (cursor : Nat) :
    zeroDivisor? x [⟨operand, cursor⟩]
      = if operand.value x == 0 then some ⟨.divisionByZero, cursor⟩ else none := by
  rw [zeroDivisor?, List.reverse_singleton, List.find?_singleton]
  split <;> rfl

theorem unlessZero_of_eq_some {α : Type} {result : α} (h : zeroDivisor? x divisors = some stop) :
    unlessZero x divisors result = .error stop := by
  rw [unlessZero, h]

theorem unlessZero_of_eq_none {α : Type} {result : α} (h : zeroDivisor? x divisors = none) :
    unlessZero x divisors result = .ok result := by
  rw [unlessZero, h]

theorem valued_of_eq_some (h : zeroDivisor? x state.divisors = some stop) :
    state.valued x = .stopped stop := by
  rw [State.valued, h]

theorem valued_of_eq_none (h : zeroDivisor? x state.divisors = none) :
    state.valued x = state.computed x := by
  rw [State.valued, h]

end Valued

/-! ### Both take the same steps -/

/-- Closing frames reads nothing, and divisors are only added. -/
theorem Closes.cursor_divisors {inProduct : Bool} {start closed : Progress × Expr}
    (h : Closes inProduct start closed) :
    closed.1.cursor = start.1.cursor
      ∧ ∃ completed, closed.1.divisors = completed ++ start.1.divisors := by
  induction h with
  | stop _ => exact ⟨rfl, [], rfl⟩
  | negate _ ih | power _ _ ih => exact ih
  | @binary stack cursor divisors completed operation left operand closed _ _ ih =>
    obtain ⟨hcursor, more, hmore⟩ := ih
    exact ⟨hcursor, more ++ completed, by rw [hmore, List.append_assoc]⟩

section Step

variable {x : Float} {divisors : List Divisor} {p : Progress} {operand : Expr} {limit : Nat}
  {token : Token} {stop : Stop}

theorem cursor_collapse (inProduct : Bool) (p : Progress) (operand : Expr) :
    (p.collapse inProduct operand).1.cursor = p.cursor :=
  (closes_collapse inProduct p operand).cursor_divisors.1

theorem zeroDivisor?_collapse (inProduct : Bool) (operand : Expr)
    (h : zeroDivisor? x p.divisors = some stop) :
    zeroDivisor? x (p.collapse inProduct operand).1.divisors = some stop := by
  obtain ⟨-, completed, hcompleted⟩ := (closes_collapse inProduct p operand).cursor_divisors
  rw [hcompleted]
  exact zeroDivisor?_append_of_eq_some completed h

/-- Closing frames computes what they hold, up to the first zero divisor. -/
theorem close_valued (inProduct : Bool) (operand : Expr) (h : zeroDivisor? x p.divisors = none) :
    Computation.close inProduct p.cursor (p.stack.map (Frame.valued x)) (operand.value x)
      = unlessZero x (p.collapse inProduct operand).1.divisors
          ((p.collapse inProduct operand).1.stack.map (Frame.valued x),
            (p.collapse inProduct operand).2.value x) := by
  obtain ⟨stack, cursor, divisors⟩ := p
  induction stack generalizing operand divisors with
  | nil =>
    rw [Progress.collapse, unlessZero_of_eq_none h]
    rfl
  | cons frame stack ih =>
    cases frame with
    | group =>
      rw [Progress.collapse, unlessZero_of_eq_none h]
      rfl
    | negate =>
      rw [Progress.collapse_negate, ← ih (.negate operand) divisors h]
      rfl
    | power base =>
      cases inProduct with
      | true =>
        rw [Progress.collapse, if_pos rfl, unlessZero_of_eq_none h]
        rfl
      | false =>
        rw [Progress.collapse_power, ← ih (.power base operand) divisors h]
        rfl
    | binary operation left =>
      simp only [List.map_cons, Frame.valued, Computation.close]
      by_cases hwaits : (inProduct && !operation.isProduct) = true
      · rw [if_pos hwaits, Progress.collapse, if_pos hwaits, unlessZero_of_eq_none h]
        rfl
      rw [if_neg hwaits]
      have hproduct : inProduct = true → operation.isProduct = true := by
        rintro rfl
        simpa using hwaits
      rw [Progress.collapse_binary _ _ _ _ _ _ hproduct]
      have hcompleted : zeroDivisor? x
          ((if operation = .divide then [⟨operand, cursor⟩] else []) ++ divisors)
            = if operation = .divide ∧ operand.value x == 0 then some ⟨.divisionByZero, cursor⟩
              else none := by
        rw [zeroDivisor?_append, h, Option.none_or]
        by_cases hdivide : operation = .divide
        · simp only [hdivide, if_true, zeroDivisor?_singleton, true_and]
        · simp only [hdivide, if_false, false_and]
          rfl
      by_cases hzero : operation = .divide ∧ operand.value x == 0
      · rw [if_pos hzero] at hcompleted ⊢
        exact (unlessZero_of_eq_some (zeroDivisor?_collapse inProduct _ hcompleted)).symm
      · rw [if_neg hzero] at hcompleted ⊢
        exact ih (.binary operation left operand) _ hcompleted

theorem divisors_push (frame : Frame) : (p.push limit token frame).divisors = p.divisors := by
  unfold Progress.push
  dsimp only
  split <;> rfl

theorem valued_push (frame : Frame) (h : zeroDivisor? x p.divisors = none) :
    (p.push limit token frame).valued x
      = Computation.push limit (p.stack.map (Frame.valued x)) p.cursor token (frame.valued x) := by
  have hnesting := nesting_map_valued (x := x) (frame :: p.stack)
  rw [List.map_cons] at hnesting
  rw [Progress.push, Computation.push, hnesting]
  split
  · exact valued_of_eq_none h
  · exact valued_of_eq_none h

theorem valued_readOperand (h : zeroDivisor? x p.divisors = none) :
    (p.readOperand limit token).valued x
      = Computation.readOperand limit x (p.stack.map (Frame.valued x)) p.cursor token := by
  cases token with
  | minus => exact valued_push .negate h
  | opening => exact valued_push .group h
  | «variable» => exact valued_of_eq_none h
  | number literal =>
    rw [Progress.readOperand, Computation.readOperand]
    split
    · exact valued_of_eq_none h
    · exact valued_of_eq_none h
  | plus | times | «over» | power | closing | other _ => exact valued_of_eq_none h

theorem valued_pushBinary (operation : Operation) (h : zeroDivisor? x p.divisors = none) :
    (p.pushBinary limit token operation operand).valued x
      = Computation.pushBinary limit (p.stack.map (Frame.valued x)) p.cursor token operation
          (operand.value x) := by
  rw [Progress.pushBinary, Computation.pushBinary, close_valued _ _ h,
    ← cursor_collapse operation.isProduct p operand]
  cases hzero : zeroDivisor? x (p.collapse operation.isProduct operand).1.divisors with
  | some stop =>
    rw [unlessZero_of_eq_some hzero]
    exact valued_of_eq_some (by rwa [divisors_push])
  | none =>
    rw [unlessZero_of_eq_none hzero]
    exact valued_push _ hzero

theorem divisors_readEnd :
    (p.readEnd token operand).divisors = (p.collapse false operand).1.divisors := by
  unfold Progress.readEnd
  dsimp only
  split
  · rfl
  · rfl
  · split <;> rfl

theorem valued_readEnd (h : zeroDivisor? x p.divisors = none) :
    (p.readEnd token operand).valued x
      = Computation.readEnd (p.stack.map (Frame.valued x)) p.cursor token (operand.value x) := by
  rw [Computation.readEnd, close_valued _ _ h, ← cursor_collapse false p operand]
  cases hzero : zeroDivisor? x (p.collapse false operand).1.divisors with
  | some stop =>
    rw [unlessZero_of_eq_some hzero]
    exact valued_of_eq_some (by rwa [divisors_readEnd])
  | none =>
    rw [unlessZero_of_eq_none hzero, Progress.readEnd]
    dsimp only
    cases (p.collapse false operand).1.stack with
    | nil => cases token.text <;> exact valued_of_eq_none hzero
    | cons frame stack =>
      cases token with
      | closing => exact valued_of_eq_none hzero
      | _ => exact valued_of_eq_none hzero

theorem valued_readOperator (h : zeroDivisor? x p.divisors = none) :
    (p.readOperator limit token operand).valued x
      = Computation.readOperator limit (p.stack.map (Frame.valued x)) p.cursor token
          (operand.value x) := by
  cases token with
  | power => exact valued_push _ h
  | plus => exact valued_pushBinary .add h
  | minus => exact valued_pushBinary .subtract h
  | times => exact valued_pushBinary .multiply h
  | «over» => exact valued_pushBinary .divide h
  | number _ | «variable» | opening | closing | other _ => exact valued_readEnd h

/-- A zero divisor stays the first one. -/
theorem zeroDivisor?_read {state : State} (h : zeroDivisor? x state.divisors = some stop) :
    zeroDivisor? x (state.read limit token).divisors = some stop := by
  have hbinary : ∀ (p : Progress) (operand : Expr) (operation : Operation),
      zeroDivisor? x p.divisors = some stop →
      zeroDivisor? x (p.pushBinary limit token operation operand).divisors = some stop := by
    intro p operand operation hp
    rw [Progress.pushBinary, divisors_push]
    exact zeroDivisor?_collapse _ _ hp
  cases state with
  | expecting p =>
    cases token with
    | minus | opening =>
      rw [State.read, Progress.readOperand, divisors_push]
      exact h
    | number literal =>
      simp only [State.read, Progress.readOperand]
      split <;> exact h
    | _ => exact h
  | holding p operand =>
    cases token with
    | power =>
      rw [State.read, Progress.readOperator, divisors_push]
      exact h
    | plus | minus | times | «over» => exact hbinary p operand _ h
    | _ =>
      simp only [State.read, Progress.readOperator, divisors_readEnd]
      exact zeroDivisor?_collapse _ _ h
  | stopped stop divisors => exact h

/-- **Reading and computing keep step.** -/
theorem valued_read (state : State) :
    (state.read limit token).valued x = (state.valued x).read limit x token := by
  cases hzero : zeroDivisor? x state.divisors with
  | some stop =>
    rw [valued_of_eq_some hzero, valued_of_eq_some (zeroDivisor?_read hzero)]
    rfl
  | none =>
    rw [valued_of_eq_none hzero]
    cases state with
    | expecting p => exact valued_readOperand hzero
    | holding p operand => exact valued_readOperator hzero
    | stopped stop divisors => exact valued_of_eq_none hzero

theorem evaluate_of_eq_some (ending : Except Stop Expr) (h : zeroDivisor? x divisors = some stop) :
    Reading.evaluate ⟨divisors.reverse, ending⟩ x = .error stop := by
  obtain ⟨divisor, hfind, rfl⟩ := Option.map_eq_some_iff.mp h
  rw [Reading.evaluate, hfind]

theorem evaluate_of_eq_none (ending : Except Stop Expr) (h : zeroDivisor? x divisors = none) :
    Reading.evaluate ⟨divisors.reverse, ending⟩ x = ending.map (Expr.value x) := by
  rw [Reading.evaluate, Option.map_eq_none_iff.mp h]

theorem finish_holding (p : Progress) (operand : Expr) :
    (State.holding p operand).finish
      = ⟨(p.collapse false operand).1.divisors.reverse,
          match (p.collapse false operand).1.stack with
          | [] => .ok (p.collapse false operand).2
          | _ :: _ => .error ⟨.unclosedGroup, (p.collapse false operand).1.cursor⟩⟩ := by
  rw [State.finish]
  dsimp only
  cases (p.collapse false operand).1.stack <;> rfl

theorem evaluate_finish (state : State) : state.finish.evaluate x = (state.valued x).outcome := by
  cases hzero : zeroDivisor? x state.divisors with
  | some stop =>
    rw [valued_of_eq_some hzero]
    cases state with
    | expecting p => exact evaluate_of_eq_some _ hzero
    | stopped _ divisors => exact evaluate_of_eq_some _ hzero
    | holding p operand =>
      rw [finish_holding]
      exact evaluate_of_eq_some _ (zeroDivisor?_collapse false operand hzero)
  | none =>
    rw [valued_of_eq_none hzero]
    cases state with
    | expecting p => exact evaluate_of_eq_none _ hzero
    | stopped _ divisors => exact evaluate_of_eq_none _ hzero
    | holding p operand =>
      rw [State.computed, Computation.outcome, close_valued _ _ hzero, finish_holding,
        ← cursor_collapse false p operand]
      cases hclosed : zeroDivisor? x (p.collapse false operand).1.divisors with
      | some stop =>
        rw [unlessZero_of_eq_some hclosed]
        exact evaluate_of_eq_some _ hclosed
      | none =>
        rw [unlessZero_of_eq_none hclosed, evaluate_of_eq_none _ hclosed]
        cases (p.collapse false operand).1.stack <;> rfl

end Step

/-- The outcome of evaluating the tokens while they are read. -/
def compute (limit : Nat) (ts : List Token) (x : Float) : Except Stop Float :=
  (ts.foldl (Computation.read limit x) .start).outcome

/-- **Evaluation needs one pass.** Reading tokens and evaluating what was read has the outcome, and ends
where, evaluating them while they are read does. -/
theorem evaluate_readTokens (limit : Nat) (ts : List Token) (x : Float) :
    (readTokens limit ts).evaluate x = compute limit ts x := by
  have hrun : ts.foldl (Computation.read limit x) ((State.expecting .start).valued x)
      = (ts.foldl (State.read limit) (.expecting .start)).valued x :=
    List.foldl_hom (State.valued x) fun state token => (valued_read state).symm
  rw [readTokens, evaluate_finish, ← hrun]
  rfl

end FunctionGraph.Formula
