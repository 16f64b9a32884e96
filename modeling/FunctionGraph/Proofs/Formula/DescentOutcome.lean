import FunctionGraph.Proofs.Formula.DescentRest
import FunctionGraph.Proofs.Formula.DescentSafety

/-!
# What a descent ends with

A descent and a computation that reads tokens stand at corresponding points: an open construct is a
procedure that waits behind an operator, and a procedure that has met none yet has opened nothing. From
every point of the descent the computation can go on over the rest of the text, and no step changes
what it ends with. So a descent ends with the value or the error of the evaluation, when this sets no
bound to the nesting that the text could reach.
-/

namespace FunctionGraph.Formula.Descent

/-! ### Sound points of a descent -/

namespace Waiting

/-- The level of the value that is waited for. -/
def level : Waiting → Level
  | .first inProduct => (operandOf inProduct).level
  | .operand operation _ => (operandOf operation.isProduct).level
  | .base => .factor
  | .raise _ => .product
  | .negate => .power
  | .group => .sum

/-- The level of the procedure that waits. -/
def owner : Waiting → Level
  | .first inProduct => closedLevel inProduct
  | .operand operation _ => closedLevel operation.isProduct
  | .base | .raise _ => .power
  | .negate | .group => .factor

/-- What a procedure has opened with the operator behind which it waits. -/
def frame? : Waiting → Option Computation.Frame
  | .first _ | .base => none
  | .operand operation left => some (.binary operation left)
  | .raise left => some (.power left)
  | .negate => some .negate
  | .group => some .group

end Waiting

def innerLevel : List Waiting → Level
  | [] => .sum
  | frame :: _ => frame.level

/-- Every procedure that waits was called for what the one around it waits for. -/
def AreNested : List Waiting → Prop
  | [] => True
  | frame :: waiting => frame.owner = innerLevel waiting ∧ AreNested waiting

def openFrames (waiting : List Waiting) : List Computation.Frame :=
  waiting.filterMap Waiting.frame?

def Procedure.IsReady (text : List Char) (cursor : Nat) : Procedure → Prop
  | .loop inProduct _ => Leaves (operandOf inProduct).level (text.drop cursor)
  | .number start => IsReadingNumber text start cursor
  | _ => True

def Control.IsSound (text : List Char) (inner : Level) (cursor : Nat) : Control → Prop
  | .perform procedure => procedure.level = inner ∧ procedure.IsReady text cursor
  | .back _ => Leaves inner (text.drop cursor)
  | .ended _ => True

/-- Every open construct has taken characters, so the nesting cannot outgrow the cursor. -/
structure Config.IsSound (text : List Char) (c : Config) : Prop where
  cursor : c.cursor ≤ text.length
  nested : AreNested c.waiting
  nesting : Computation.nesting (openFrames c.waiting) ≤ 4 * c.cursor
  control : c.control.IsSound text (innerLevel c.waiting) c.cursor

def Ending.result? : Ending → Option (Except Stop Float)
  | .returned value => some (.ok value)
  | .raised stop => some (.error stop)
  | .crashed _ => none

/-- What the computation ends with that stands where the descent stands. -/
def Config.answer (limit : Nat) (text : List Char) (x : Float) (c : Config) :
    Option (Except Stop Float) :=
  match c.control with
  | .perform (.loop _ value) | .perform (.exponent value) | .back value =>
    some (outcomeFrom limit x (.holding (openFrames c.waiting) c.cursor value) (text.drop c.cursor))
  | .perform (.number start) =>
    some (outcomeFrom limit x (.expecting (openFrames c.waiting) start) (text.drop start))
  | .perform _ =>
    some (outcomeFrom limit x (.expecting (openFrames c.waiting) c.cursor) (text.drop c.cursor))
  | .ended ending => ending.result?

/-- The next point is sound too, and the answer is the same there. -/
structure Config.Keeps (limit : Nat) (text : List Char) (x : Float) (c next : Config) : Prop where
  sound : next.IsSound text
  answer : next.answer limit text x = c.answer limit text x

section Steps

variable {limit : Nat} {text : List Char} {x value : Float} {cursor : Nat} {waiting : List Waiting}
  {control : Control} {inProduct : Bool}

/-- Nothing that waits for an operand as loose as the one in front is closed. -/
theorem close_openFrames (hnested : AreNested waiting) (h : closedLevel inProduct ≤ innerLevel waiting)
    (cursor : Nat) (value : Float) :
    Computation.close inProduct cursor (openFrames waiting) value = .ok (openFrames waiting, value) := by
  induction waiting with
  | nil => rfl
  | cons frame waiting ih =>
    obtain ⟨howner, hnested⟩ := hnested
    have hle : (closedLevel inProduct).rank ≤ frame.level.rank := h
    cases frame with
    | first product =>
      have hloose : (operandOf product).level ≤ closedLevel product := by cases product <;> decide
      exact ih hnested (howner ▸ Level.le_trans h hloose)
    | base | negate => cases inProduct <;> simp [closedLevel, Waiting.level, Level.rank] at hle
    | group => rfl
    | raise base =>
      cases inProduct with
      | false => simp [closedLevel, Waiting.level, Level.rank] at hle
      | true => rfl
    | operand operation left =>
      have hstop : (inProduct && !operation.isProduct) = true := by
        cases inProduct <;> cases hproduct : operation.isProduct <;>
          simp [closedLevel, Waiting.level, operandOf, Procedure.level, hproduct, Level.rank] at hle ⊢
      change Computation.close inProduct cursor (.binary operation left :: openFrames waiting) value = _
      rw [Computation.close, if_pos hstop]
      rfl

/-- A new frame is paid for by the characters of its operator. -/
theorem Config.IsSound.push (frame : Computation.Frame) {moved : Nat}
    (h : Config.IsSound text ⟨control, waiting, cursor⟩) (hlimit : 4 * text.length ≤ limit)
    (hcursor : cursor + moved ≤ text.length) (hweight : frame.weight ≤ 4 * moved) :
    Computation.nesting (frame :: openFrames waiting) ≤ 4 * (cursor + moved)
      ∧ Computation.nesting (frame :: openFrames waiting) ≤ limit := by
  have hnesting : Computation.nesting (openFrames waiting) ≤ 4 * cursor := h.nesting
  rw [Computation.nesting]
  omega

theorem Config.IsSound.nesting_succ (h : Config.IsSound text ⟨control, waiting, cursor⟩) :
    Computation.nesting (openFrames waiting) ≤ 4 * (cursor + 1) :=
  h.nesting.trans (Nat.mul_le_mul_left 4 (Nat.le_succ cursor))

theorem keeps_chain (h : Config.IsSound text ⟨.perform (.chain inProduct), waiting, cursor⟩) :
    Config.Keeps limit text x ⟨.perform (.chain inProduct), waiting, cursor⟩
      ((enter text x cursor (.chain inProduct)).apply waiting cursor) := by
  have hready : (operandOf inProduct).IsReady text cursor := by cases inProduct <;> trivial
  refine ⟨⟨h.cursor, ⟨h.control.1, h.nested⟩, h.nesting, ⟨rfl, hready⟩⟩, ?_⟩
  cases inProduct <;> rfl

theorem keeps_power (h : Config.IsSound text ⟨.perform .power, waiting, cursor⟩) :
    Config.Keeps limit text x ⟨.perform .power, waiting, cursor⟩
      ((enter text x cursor .power).apply waiting cursor) :=
  ⟨⟨h.cursor, ⟨h.control.1, h.nested⟩, h.nesting, ⟨rfl, trivial⟩⟩, rfl⟩

theorem keeps_loop {left : Float} (hlimit : 4 * text.length ≤ limit)
    (h : Config.IsSound text ⟨.perform (.loop inProduct left), waiting, cursor⟩) :
    Config.Keeps limit text x ⟨.perform (.loop inProduct left), waiting, cursor⟩
      ((enter text x cursor (.loop inProduct left)).apply waiting cursor) := by
  obtain ⟨hlevel, hleaves⟩ := h.control
  rw [enter]
  split
  · next operation hoperation =>
    change Config.Keeps _ _ _ _
      ⟨.perform (operandOf inProduct), .operand operation left :: waiting, cursor + 1⟩
    obtain ⟨rfl, -⟩ := tokens_of_operation hoperation hleaves
    obtain ⟨c, hc, -⟩ := Option.bind_eq_some_iff.mp hoperation
    have hcursor := succ_le_length hc
    obtain ⟨hpush, hwithin⟩ := h.push (.binary operation left) hlimit hcursor (Nat.zero_le _)
    -- What is open around the loop waits for the whole chain, so the operator closes none of it.
    have hclose := close_openFrames h.nested (Nat.le_of_eq (congrArg Level.rank hlevel)) cursor left
    have houtcome := outcomeFrom_operation x hoperation hleaves hclose hwithin
    have hready : (operandOf operation.isProduct).IsReady text (cursor + 1) := by
      cases operation <;> trivial
    refine ⟨⟨hcursor, ⟨hlevel, h.nested⟩, hpush, ⟨rfl, hready⟩⟩, ?_⟩
    cases operation <;> exact congrArg some houtcome.symm
  · next hnone =>
    exact ⟨⟨h.cursor, h.nested, h.nesting, hlevel ▸ leaves_of_operation?_eq_none hnone hleaves⟩, rfl⟩

theorem keeps_exponent {base : Float} (hlimit : 4 * text.length ≤ limit)
    (h : Config.IsSound text ⟨.perform (.exponent base), waiting, cursor⟩) :
    Config.Keeps limit text x ⟨.perform (.exponent base), waiting, cursor⟩
      ((enter text x cursor (.exponent base)).apply waiting cursor) := by
  rw [enter]
  split
  · next hpower =>
    have hcursor := add_two_le_length hpower
    obtain ⟨hpush, hwithin⟩ := h.push (.power base) hlimit hcursor (show 2 ≤ 4 * 2 by decide)
    have houtcome := outcomeFrom_power_sign x hpower hwithin
    exact ⟨⟨hcursor, ⟨h.control.1, h.nested⟩, hpush, ⟨rfl, trivial⟩⟩, congrArg some houtcome.symm⟩
  · next hpower =>
    exact ⟨⟨h.cursor, h.nested, h.nesting, h.control.1 ▸ leaves_power_iff.mpr hpower⟩, rfl⟩

theorem keeps_factor (hlimit : 4 * text.length ≤ limit)
    (h : Config.IsSound text ⟨.perform .factor, waiting, cursor⟩) :
    Config.Keeps limit text x ⟨.perform .factor, waiting, cursor⟩
      ((enter text x cursor .factor).apply waiting cursor) := by
  have hlevel : .factor = innerLevel waiting := h.control.1
  rw [enter]
  split
  · next hend =>
    exact ⟨⟨h.cursor, h.nested, h.nesting, trivial⟩, congrArg some (outcomeFrom_end hend).symm⟩
  · next hc =>
    have hcursor := succ_le_length hc
    obtain ⟨hpush, hwithin⟩ := h.push .negate hlimit hcursor (by decide)
    have houtcome := outcomeFrom_opens x hc (Or.inl ⟨rfl, rfl⟩) hwithin
    exact ⟨⟨hcursor, ⟨hlevel, h.nested⟩, hpush, ⟨rfl, trivial⟩⟩, congrArg some houtcome.symm⟩
  · next hc =>
    have hcursor := succ_le_length hc
    obtain ⟨hpush, hwithin⟩ := h.push .group hlimit hcursor (by decide)
    have houtcome := outcomeFrom_opens x hc (Or.inr ⟨rfl, rfl⟩) hwithin
    exact ⟨⟨hcursor, ⟨hlevel, h.nested⟩, hpush, ⟨rfl, trivial⟩⟩, congrArg some houtcome.symm⟩
  · next hc =>
    have hleaves : Leaves (innerLevel waiting) (text.drop (cursor + 1)) := hlevel ▸ leaves_factor _
    exact ⟨⟨succ_le_length hc, h.nested, h.nesting_succ, hleaves⟩,
      congrArg some (outcomeFrom_variable hc).symm⟩
  · next c hminus hopening hvariable hc =>
    have hfirst : c ∉ ['-', '(', 'x'] := by simpa using ⟨hminus, hopening, hvariable⟩
    exact ⟨⟨h.cursor, h.nested, h.nesting, hlevel, ⟨[], rfl, rfl, rfl⟩, c, hc, hfirst⟩, rfl⟩

theorem keeps_number {start : Nat}
    (h : Config.IsSound text ⟨.perform (.number start), waiting, cursor⟩) :
    Config.Keeps limit text x ⟨.perform (.number start), waiting, cursor⟩
      ((enter text x cursor (.number start)).apply waiting cursor) := by
  obtain ⟨hlevel, hnumber⟩ := h.control
  rw [enter]
  split
  · next hnumeric =>
    obtain ⟨c, hc, hnumeric⟩ := (Option.any_eq_true _ _).mp hnumeric
    exact ⟨⟨succ_le_length hc, h.nested, h.nesting_succ, hlevel, hnumber.next hc hnumeric⟩, rfl⟩
  · next hend =>
    have houtcome := outcomeFrom_number limit x (openFrames waiting) hnumber (Bool.eq_false_iff.mpr hend)
    dsimp only
    split
    · next hempty =>
      rw [if_pos hempty] at houtcome
      exact ⟨⟨h.cursor, h.nested, h.nesting, trivial⟩, congrArg some houtcome.symm⟩
    · next hempty =>
      rw [if_neg hempty] at houtcome
      split
      · next hnan =>
        rw [if_pos hnan] at houtcome
        exact ⟨⟨h.cursor, h.nested, h.nesting, trivial⟩, congrArg some houtcome.symm⟩
      · next hnan =>
        rw [if_neg hnan] at houtcome
        exact ⟨⟨h.cursor, h.nested, h.nesting, hlevel ▸ leaves_factor (text.drop cursor)⟩,
          congrArg some houtcome.symm⟩

theorem nesting_le_of_cons {stack : List Computation.Frame} {frame : Computation.Frame} {bound : Nat}
    (h : Computation.nesting (frame :: stack) ≤ bound) : Computation.nesting stack ≤ bound :=
  (Nat.le_add_left _ _).trans h

theorem keeps_first (h : Config.IsSound text ⟨.back value, .first inProduct :: waiting, cursor⟩) :
    Config.Keeps limit text x ⟨.back value, .first inProduct :: waiting, cursor⟩
      ((resume text cursor value (.first inProduct)).apply waiting cursor) :=
  ⟨⟨h.cursor, h.nested.2, h.nesting, h.nested.1, h.control⟩, rfl⟩

theorem keeps_base (h : Config.IsSound text ⟨.back value, .base :: waiting, cursor⟩) :
    Config.Keeps limit text x ⟨.back value, .base :: waiting, cursor⟩
      ((resume text cursor value .base).apply waiting cursor) :=
  ⟨⟨h.cursor, h.nested.2, h.nesting, h.nested.1, trivial⟩, rfl⟩

theorem keeps_raise {base : Float}
    (h : Config.IsSound text ⟨.back value, .raise base :: waiting, cursor⟩) :
    Config.Keeps limit text x ⟨.back value, .raise base :: waiting, cursor⟩
      ((resume text cursor value (.raise base)).apply waiting cursor) := by
  -- The exponent is a product, and where a product is over the power is too.
  have hleaves : Leaves .product (text.drop cursor) := h.control
  have hpower : Leaves .power (text.drop cursor) := hleaves.mono (by decide)
  have hlevel : .power = innerLevel waiting := h.nested.1
  exact ⟨⟨h.cursor, h.nested.2, nesting_le_of_cons h.nesting, hlevel ▸ hpower⟩,
    congrArg some (outcomeFrom_power hleaves).symm⟩

theorem keeps_negate (h : Config.IsSound text ⟨.back value, .negate :: waiting, cursor⟩) :
    Config.Keeps limit text x ⟨.back value, .negate :: waiting, cursor⟩
      ((resume text cursor value .negate).apply waiting cursor) := by
  have hlevel : .factor = innerLevel waiting := h.nested.1
  have hleaves : Leaves (innerLevel waiting) (text.drop cursor) := hlevel ▸ leaves_factor _
  exact ⟨⟨h.cursor, h.nested.2, nesting_le_of_cons h.nesting, hleaves⟩,
    congrArg some (outcomeFrom_negate h.control).symm⟩

theorem keeps_group (h : Config.IsSound text ⟨.back value, .group :: waiting, cursor⟩) :
    Config.Keeps limit text x ⟨.back value, .group :: waiting, cursor⟩
      ((resume text cursor value .group).apply waiting cursor) := by
  have hlevel : .factor = innerLevel waiting := h.nested.1
  have houtcome := outcomeFrom_group limit x value (openFrames waiting) h.control
  rw [resume]
  split
  · next hc =>
    rw [if_pos hc] at houtcome
    refine ⟨⟨succ_le_length hc, h.nested.2, nesting_le_of_cons h.nesting_succ, ?_⟩,
      congrArg some houtcome.symm⟩
    exact hlevel ▸ leaves_factor (text.drop (cursor + 1))
  · next hc =>
    rw [if_neg hc] at houtcome
    exact ⟨⟨h.cursor, h.nested.2, nesting_le_of_cons h.nesting, trivial⟩, congrArg some houtcome.symm⟩

theorem keeps_operand {operation : Operation} {left : Float}
    (h : Config.IsSound text ⟨.back value, .operand operation left :: waiting, cursor⟩) :
    Config.Keeps limit text x ⟨.back value, .operand operation left :: waiting, cursor⟩
      ((resume text cursor value (.operand operation left)).apply waiting cursor) := by
  have hnesting : Computation.nesting (openFrames waiting) ≤ 4 * cursor := nesting_le_of_cons h.nesting
  have houtcome := outcomeFrom_binary limit cursor x left value (openFrames waiting) h.control
  rw [resume]
  split
  · next hdivide =>
    subst hdivide
    split
    · next hzero =>
      rw [if_pos ⟨rfl, hzero⟩] at houtcome
      exact ⟨⟨h.cursor, h.nested.2, hnesting, trivial⟩, congrArg some houtcome.symm⟩
    · next hzero =>
      rw [if_neg fun h => hzero h.2] at houtcome
      rw [Scalar.divide_of_ne (Bool.eq_false_iff.mpr hzero)]
      exact ⟨⟨h.cursor, h.nested.2, hnesting, h.nested.1, h.control⟩, congrArg some houtcome.symm⟩
  · next hdivide =>
    rw [if_neg fun h => hdivide h.1] at houtcome
    exact ⟨⟨h.cursor, h.nested.2, hnesting, h.nested.1, h.control⟩, congrArg some houtcome.symm⟩

theorem keeps_finish (h : Config.IsSound text ⟨.back value, [], cursor⟩) :
    Config.Keeps limit text x ⟨.back value, [], cursor⟩
      ((finish text cursor value).apply [] cursor) := by
  have houtcome := outcomeFrom_whole limit x value h.control
  rw [finish]
  split
  · next hend =>
    rw [List.getElem?_eq_none (Nat.le_of_eq hend.symm)] at houtcome
    exact ⟨⟨h.cursor, trivial, h.nesting, trivial⟩, congrArg some houtcome.symm⟩
  · next hne =>
    have hlt : cursor < text.length := Nat.lt_of_le_of_ne h.cursor hne
    rw [List.getElem?_eq_getElem hlt] at houtcome ⊢
    exact ⟨⟨h.cursor, trivial, h.nesting, trivial⟩, congrArg some houtcome.symm⟩

/-- **No step changes what the descent ends with.** -/
theorem keeps_step {c : Config} (hlimit : 4 * text.length ≤ limit) (h : c.IsSound text) :
    c.Keeps limit text x (step text x c) := by
  obtain ⟨control, waiting, cursor⟩ := c
  cases control with
  | perform procedure =>
    cases procedure with
    | chain _ => exact keeps_chain h
    | loop _ _ => exact keeps_loop hlimit h
    | power => exact keeps_power h
    | exponent _ => exact keeps_exponent hlimit h
    | factor => exact keeps_factor hlimit h
    | number _ => exact keeps_number h
  | back value =>
    cases waiting with
    | nil => exact keeps_finish h
    | cons frame waiting =>
      cases frame with
      | first _ => exact keeps_first h
      | operand _ _ => exact keeps_operand h
      | base => exact keeps_base h
      | raise _ => exact keeps_raise h
      | negate => exact keeps_negate h
      | group => exact keeps_group h
  | ended ending => exact ⟨h, rfl⟩

theorem isSound_start (text : List Char) : start.IsSound text :=
  ⟨Nat.zero_le _, trivial, Nat.zero_le _, rfl, trivial⟩

theorem keeps_config (x : Float) (hlimit : 4 * text.length ≤ limit) (n : Nat) :
    start.Keeps limit text x (config text x n) := by
  induction n with
  | zero => exact ⟨isSound_start text, rfl⟩
  | succ n ih =>
    have hstep := keeps_step (x := x) hlimit ih.sound
    exact ⟨hstep.sound, hstep.answer.trans ih.answer⟩

/-- The descent ends as the evaluation does, when this bounds the nesting no tighter than the text. -/
theorem result?_of_ended {ending : Ending} {n : Nat} (hlimit : 4 * text.length ≤ limit)
    (h : (config text x n).control = .ended ending) :
    ending.result? = some ((readTokens limit (tokens text)).evaluate x) := by
  have hanswer := (keeps_config x hlimit n).answer
  rw [Config.answer, h] at hanswer
  rw [evaluate_readTokens]
  exact hanswer

end Steps

/-- **A descent is safe, and ends as the evaluation does.** On every text it stays in the text and
divides by no zero, and it ends with a value or an error, the same as when the tokens are read with no
bound that the nesting could reach. -/
theorem isSafe_and_ends (text : List Char) (x : Float) :
    IsSafe text x ∧ ∃ ending result,
      (config text x (11 * text.length + 13)).control = .ended ending ∧ ending.result? = some result ∧
        ∀ limit, 4 * text.length ≤ limit →
          (readTokens limit (tokens text)).evaluate x = result ∧
            evaluateWithin limit text x = result.mapError Stop.cause := by
  obtain ⟨ending, hended⟩ := exists_ended text x
  have hresult := result?_of_ended (Nat.le_refl (4 * text.length)) hended
  refine ⟨isSafe text x, ending, _, hended, hresult, fun limit hlimit => ?_⟩
  have hsame := Option.some.inj ((result?_of_ended hlimit hended).symm.trans hresult)
  exact ⟨hsame, by rw [evaluateWithin, hsame]⟩

/-- In `-(2` the group is found open at the end. -/
theorem isSafe_and_ends_of_open_group :
    IsSafe ['-', '(', '2'] 0 ∧ ∃ ending, (config ['-', '(', '2'] 0 46).control = .ended ending ∧
      ending.result? = some (.error ⟨.unclosedGroup, 3⟩) := by
  obtain ⟨hsafe, ending, result, hended, hresult, hevaluate⟩ := isSafe_and_ends ['-', '(', '2'] 0
  have hvalue : (readTokens 12 (tokens ['-', '(', '2'])).evaluate 0 = .error ⟨.unclosedGroup, 3⟩ := by
    decide +kernel
  have hlimit : 4 * ['-', '(', '2'].length ≤ 12 := by decide
  rw [← (hevaluate 12 hlimit).1, hvalue] at hresult
  exact ⟨hsafe, ending, hended, hresult⟩

end FunctionGraph.Formula.Descent
