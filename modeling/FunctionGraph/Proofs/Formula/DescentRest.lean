import FunctionGraph.Proofs.Formula.Descent
import FunctionGraph.Proofs.Formula.EarliestError
import FunctionGraph.Proofs.Number.Spelling

/-!
# What a computation makes of the rest of a text

Tokens are cut from the rest of a text character by character here. What stands next tells whether a
level of the grammar is over, and where it is, a computation begins with closing the frames of that
level, whatever token it is that stands there.
-/

namespace FunctionGraph.Formula.Descent

/-! ### Levels that are over -/

/-- The level of what the procedure reads. -/
def Procedure.level : Procedure → Level
  | .chain inProduct | .loop inProduct _ => closedLevel inProduct
  | .power | .exponent _ => .power
  | .factor | .number _ => .factor

/-- The operators that go on at the level. -/
def operators : Level → List Token
  | .factor => []
  | .power => [.power]
  | .product => [.power, .times, .over]
  | .sum => [.power, .times, .over, .plus, .minus]

/-- The level is over: what stands next is no operator of it. -/
def Leaves (level : Level) (rest : List Char) : Prop :=
  ∀ token ∈ (tokens rest).head?, token ∉ operators level

theorem Leaves.mono {low high : Level} {rest : List Char} (h : Leaves high rest) (hle : low ≤ high) :
    Leaves low rest := by
  intro token htoken hmem
  have hsubset : operators low ⊆ operators high := by
    cases low <;> cases high <;> simp_all [operators, Level.le_iff, Level.rank]
  exact h token htoken (hsubset hmem)

/-! ### The computation over the rest of the text -/

/-- What a computation ends with when the rest of the text is read. -/
def outcomeFrom (limit : Nat) (x : Float) (computation : Computation) (rest : List Char) :
    Except Stop Float :=
  ((tokens rest).foldl (Computation.read limit x) computation).outcome

/-- Signs of a product leave the sums in front of them open. -/
def isProductSign : Token → Bool
  | .times | .over => true
  | _ => false

section Computing

variable {limit cursor : Nat} {x value : Float} {stack : List Computation.Frame}
  {frame : Computation.Frame} {computation : Computation} {token : Token} {stop : Stop}
  {rest behind : List Char} {level : Level}

theorem outcomeFrom_of_tokens (h : tokens rest = token :: tokens behind) :
    outcomeFrom limit x computation rest
      = outcomeFrom limit x (computation.read limit x token) behind := by
  rw [outcomeFrom, h, List.foldl_cons, outcomeFrom]

theorem outcomeFrom_of_stops {ts : List Token} (h : tokens rest = token :: ts)
    (hstop : computation.read limit x token = .stopped stop) :
    outcomeFrom limit x computation rest = .error stop := by
  rw [outcomeFrom, h, List.foldl_cons, hstop, Computation.foldl_read_stopped]
  rfl

/-- What has been closed has no more to close. -/
theorem close_of_close {inProduct : Bool} {closed : List Computation.Frame × Float}
    (h : Computation.close inProduct cursor stack value = .ok closed) :
    Computation.close inProduct cursor closed.1 closed.2 = .ok closed := by
  fun_induction Computation.close inProduct cursor stack value with
  | case1 _ _ ih | case3 _ _ _ _ ih | case6 _ _ _ _ _ _ ih => exact ih h
  | case2 _ _ _ hproduct | case4 _ _ _ _ hproduct =>
    obtain rfl := Except.ok.inj h
    rw [Computation.close, if_pos hproduct]
  | case5 => contradiction
  | case7 | case8 =>
    obtain rfl := Except.ok.inj h
    rw [Computation.close]

/-- A token other than a power sign is read when the frames in front of it are closed. -/
theorem read_holding (htoken : token ≠ .power) (stack : List Computation.Frame) (value : Float) :
    (Computation.holding stack cursor value).read limit x token
      = match Computation.close (isProductSign token) cursor stack value with
        | .error stop => .stopped stop
        | .ok closed => (Computation.holding closed.1 cursor closed.2).read limit x token := by
  cases hclose : Computation.close (isProductSign token) cursor stack value with
  | error stop =>
    cases token <;>
      simp_all [Computation.read, Computation.readOperator, Computation.pushBinary, Computation.readEnd,
        isProductSign, Operation.isProduct]
  | ok closed =>
    have hagain := close_of_close hclose
    cases token <;>
      simp_all [Computation.read, Computation.readOperator, Computation.pushBinary, Computation.readEnd,
        isProductSign, Operation.isProduct]

/-- Where a level is over, the computation first closes frames, as in front of a product sign only where
that level was a power. -/
theorem exists_outcomeFrom_eq_bind (hleaves : Leaves level rest) (hlevel : level ≠ .factor)
    (limit : Nat) (x : Float) (cursor : Nat) :
    ∃ inProduct, (inProduct = true → level = .power) ∧ ∀ stack value,
      outcomeFrom limit x (.holding stack cursor value) rest
        = (Computation.close inProduct cursor stack value).bind fun closed =>
            outcomeFrom limit x (.holding closed.1 cursor closed.2) rest := by
  cases htokens : tokens rest with
  | nil =>
    refine ⟨false, by simp, fun stack value => ?_⟩
    simp only [outcomeFrom, htokens, List.foldl_nil, Computation.outcome]
    cases hclose : Computation.close false cursor stack value with
    | error stop => rfl
    | ok closed =>
      simp only [Except.bind, close_of_close hclose]
  | cons token ts =>
    have hnot : token ∉ operators level := hleaves token (by rw [htokens]; rfl)
    have hpower : token ≠ .power := by
      rintro rfl
      cases level <;> simp_all [operators]
    refine ⟨isProductSign token, ?_, fun stack value => ?_⟩
    · intro hproduct
      cases level <;> cases token <;> simp_all [operators, isProductSign]
    · simp only [outcomeFrom, htokens, List.foldl_cons, read_holding hpower stack value]
      cases hclose : Computation.close (isProductSign token) cursor stack value with
      | error stop =>
        dsimp only
        rw [Computation.foldl_read_stopped]
        rfl
      | ok closed => rfl

theorem outcomeFrom_negate (hleaves : Leaves .power rest) :
    outcomeFrom limit x (.holding (.negate :: stack) cursor value) rest
      = outcomeFrom limit x (.holding stack cursor (-value)) rest := by
  obtain ⟨inProduct, -, houtcome⟩ := exists_outcomeFrom_eq_bind hleaves (by decide) limit x cursor
  rw [houtcome, houtcome, Computation.close]

theorem outcomeFrom_power {base : Float} (hleaves : Leaves .product rest) :
    outcomeFrom limit x (.holding (.power base :: stack) cursor value) rest
      = outcomeFrom limit x (.holding stack cursor (Float.pow base value)) rest := by
  obtain ⟨inProduct, hproduct, houtcome⟩ := exists_outcomeFrom_eq_bind hleaves (by decide) limit x cursor
  obtain rfl : inProduct = false := Bool.eq_false_iff.mpr fun h => by cases hproduct h
  rw [houtcome, houtcome, Computation.close, if_neg Bool.false_ne_true]

/-- Behind its right operand an operation is computed, unless it is a division by zero. -/
theorem outcomeFrom_binary {operation : Operation} (limit cursor : Nat) (x left value : Float)
    (stack : List Computation.Frame)
    (hleaves : Leaves (operandOf operation.isProduct).level rest) :
    outcomeFrom limit x (.holding (.binary operation left :: stack) cursor value) rest
      = if operation = .divide ∧ value == 0 then .error ⟨.divisionByZero, cursor⟩
        else outcomeFrom limit x (.holding stack cursor (operation.apply left value)) rest := by
  have hlevel : (operandOf operation.isProduct).level ≠ .factor := by cases operation <;> decide
  obtain ⟨inProduct, hproduct, houtcome⟩ := exists_outcomeFrom_eq_bind hleaves hlevel limit x cursor
  have hopen : ¬(inProduct && !operation.isProduct) = true := by
    rw [Bool.and_eq_true]
    rintro ⟨hin, hsum⟩
    have hpower := hproduct hin
    rw [Bool.not_eq_true'] at hsum
    rw [hsum] at hpower
    cases hpower
  rw [houtcome, houtcome, Computation.close, if_neg hopen]
  split <;> rfl

end Computing

/-! ### What stands next -/

section Next

variable {text rest : List Char} {cursor : Nat} {c : Char} {operation : Operation} {inProduct : Bool}
  {level : Level} {token : Token} {ts : List Token}

theorem drop_of_getElem? (h : text[cursor]? = some c) :
    text.drop cursor = c :: text.drop (cursor + 1) := by
  obtain ⟨hlt, rfl⟩ := List.getElem?_eq_some_iff.mp h
  exact List.drop_eq_getElem_cons hlt

theorem tokens_drop_of_sign (h : text[cursor]? = some c) (hc : isNumeric c = false) (hstar : c ≠ '*') :
    tokens (text.drop cursor) = .ofChar c :: tokens (text.drop (cursor + 1)) := by
  rw [drop_of_getElem? h]
  exact tokens_sign hc fun d _ => parts_of_ne_star hc hstar d

theorem leaves_factor (rest : List Char) : Leaves .factor rest := by
  intro token _ hmem
  cases hmem

theorem leaves_power_iff : Leaves .power rest ↔ ¬['*', '*'] <+: rest := by
  constructor
  · rintro hleaves ⟨behind, rfl⟩
    have hpower : tokens (['*', '*'] ++ behind) = .power :: tokens behind := tokens_star_star behind
    exact hleaves .power (by rw [hpower]; rfl) List.mem_cons_self
  · intro hnot token htoken hmem
    obtain rfl := List.mem_singleton.mp hmem
    obtain ⟨ts, hts⟩ := List.head?_eq_some_iff.mp htoken
    refine hnot ⟨textOf ts, ?_⟩
    rw [← textOf_tokens rest, hts]
    rfl

/-- A sign of an operation is a token, where no power sign stands. -/
theorem tokens_of_operation (h : text[cursor]?.bind (operation? inProduct) = some operation)
    (hleaves : Leaves (operandOf inProduct).level (text.drop cursor)) :
    operation.isProduct = inProduct ∧
      tokens (text.drop cursor) = operation.token :: tokens (text.drop (cursor + 1)) := by
  obtain ⟨c, hc, hoperation⟩ := Option.bind_eq_some_iff.mp h
  have hrest := drop_of_getElem? hc
  have hsign : operation.isProduct = inProduct ∧ isNumeric c = false
      ∧ Token.ofChar c = operation.token := by
    unfold operation? at hoperation
    split at hoperation <;> cases hoperation <;> decide
  obtain ⟨hproduct, hnumeric, htoken⟩ := hsign
  refine ⟨hproduct, ?_⟩
  rw [hrest, ← htoken]
  refine tokens_sign hnumeric fun d hd => ?_
  by_cases hstar : c = '*'
  · have hpower : ¬['*', '*'] <+: text.drop cursor := by
      cases inProduct with
      | true => exact leaves_power_iff.mp hleaves
      | false =>
        rw [hstar] at hoperation
        cases hoperation
    have hne : d ≠ '*' := by
      rintro rfl
      obtain ⟨behind, hbehind⟩ := List.head?_eq_some_iff.mp hd
      exact hpower ⟨behind, by rw [hrest, hbehind, hstar]; rfl⟩
    simp [parts, hnumeric, hne]
  · exact parts_of_ne_star hnumeric hstar d

/-- Where no sign of a level stands, the level is over. -/
theorem leaves_of_operation?_eq_none (h : text[cursor]?.bind (operation? inProduct) = none)
    (hleaves : Leaves (operandOf inProduct).level (text.drop cursor)) :
    Leaves (closedLevel inProduct) (text.drop cursor) := by
  intro token htoken hmem
  have hnot := hleaves token htoken
  obtain ⟨ts, hts⟩ := List.head?_eq_some_iff.mp htoken
  have hhead := head?_text_of_tokens hts
  rw [List.head?_drop] at hhead
  have hsign : (token.text.head?.bind (operation? inProduct)).isSome = true := by
    cases inProduct with
    | true =>
      have hproduct : token ∈ [Token.power, .times, .over] := hmem
      have hpower : token ∉ [Token.power] := hnot
      obtain rfl | rfl : token = .times ∨ token = .over := by grind
      · rfl
      · rfl
    | false =>
      have hsum : token ∈ [Token.power, .times, .over, .plus, .minus] := hmem
      have hproduct : token ∉ [Token.power, .times, .over] := hnot
      obtain rfl | rfl : token = .plus ∨ token = .minus := by grind
      · rfl
      · rfl
  rw [hhead, h] at hsign
  cases hsign

end Next

/-! ### What a single token changes -/

section Tokens

variable {limit cursor : Nat} {text : List Char} {x value : Float} {stack : List Computation.Frame}
  {frame : Computation.Frame} {operation : Operation} {inProduct : Bool}

theorem push_of_le {token : Token} (h : Computation.nesting (frame :: stack) ≤ limit) :
    Computation.push limit stack cursor token frame
      = .expecting (frame :: stack) (cursor + token.width) :=
  if_neg (Nat.not_lt.mpr h)

theorem outcomeFrom_operation (x : Float)
    (hoperation : text[cursor]?.bind (operation? inProduct) = some operation)
    (hleaves : Leaves (operandOf inProduct).level (text.drop cursor))
    (hclose : Computation.close inProduct cursor stack value = .ok (stack, value))
    (hpush : Computation.nesting (.binary operation value :: stack) ≤ limit) :
    outcomeFrom limit x (.holding stack cursor value) (text.drop cursor)
      = outcomeFrom limit x (.expecting (.binary operation value :: stack) (cursor + 1))
          (text.drop (cursor + 1)) := by
  obtain ⟨rfl, htokens⟩ := tokens_of_operation hoperation hleaves
  have hread : (Computation.holding stack cursor value).read limit x operation.token
      = Computation.pushBinary limit stack cursor operation.token operation value := by
    cases operation <;> rfl
  have hwidth : operation.token.width = 1 := by cases operation <;> rfl
  rw [outcomeFrom_of_tokens htokens, hread, Computation.pushBinary, hclose]
  dsimp only
  rw [push_of_le hpush, hwidth]

theorem outcomeFrom_power_sign (x : Float) (hpower : ['*', '*'] <+: text.drop cursor)
    (hpush : Computation.nesting (.power value :: stack) ≤ limit) :
    outcomeFrom limit x (.holding stack cursor value) (text.drop cursor)
      = outcomeFrom limit x (.expecting (.power value :: stack) (cursor + 2))
          (text.drop (cursor + 2)) := by
  obtain ⟨behind, hbehind⟩ := hpower
  have htokens : tokens (text.drop cursor) = .power :: tokens (text.drop (cursor + 2)) := by
    rw [← List.drop_drop, ← hbehind]
    exact tokens_star_star behind
  rw [outcomeFrom_of_tokens htokens, Computation.read, Computation.readOperator, push_of_le hpush]
  rfl

/-- A sign or a parenthesis in front of an operand opens a frame. -/
theorem outcomeFrom_opens (x : Float) {c : Char} (hc : text[cursor]? = some c)
    (hopens : (c = '-' ∧ frame = .negate) ∨ (c = '(' ∧ frame = .group))
    (hpush : Computation.nesting (frame :: stack) ≤ limit) :
    outcomeFrom limit x (.expecting stack cursor) (text.drop cursor)
      = outcomeFrom limit x (.expecting (frame :: stack) (cursor + 1)) (text.drop (cursor + 1)) := by
  rcases hopens with ⟨rfl, rfl⟩ | ⟨rfl, rfl⟩ <;>
  · have htokens := tokens_drop_of_sign hc (by decide) (by decide)
    exact (outcomeFrom_of_tokens htokens).trans (congrArg (outcomeFrom limit x · _) (push_of_le hpush))

theorem outcomeFrom_variable (hc : text[cursor]? = some 'x') :
    outcomeFrom limit x (.expecting stack cursor) (text.drop cursor)
      = outcomeFrom limit x (.holding stack (cursor + 1) x) (text.drop (cursor + 1)) :=
  outcomeFrom_of_tokens (tokens_drop_of_sign hc (by decide) (by decide))

theorem outcomeFrom_end (h : text[cursor]? = none) :
    outcomeFrom limit x (.expecting stack cursor) (text.drop cursor)
      = .error ⟨.unexpectedEnd, cursor⟩ := by
  rw [List.drop_eq_nil_of_le (List.getElem?_eq_none_iff.mp h)]
  rfl

/-- A group that is complete is closed by the token for it, and by no other. -/
theorem outcomeFrom_group (limit : Nat) (x value : Float) (stack : List Computation.Frame)
    (hleaves : Leaves .sum (text.drop cursor)) :
    outcomeFrom limit x (.holding (.group :: stack) cursor value) (text.drop cursor)
      = if text[cursor]? = some ')' then
          outcomeFrom limit x (.holding stack (cursor + 1) value) (text.drop (cursor + 1))
        else .error ⟨.unclosedGroup, cursor⟩ := by
  split
  · next hc => exact outcomeFrom_of_tokens (tokens_drop_of_sign hc (by decide) (by decide))
  · next hc =>
    cases htokens : tokens (text.drop cursor) with
    | nil =>
      rw [outcomeFrom, htokens]
      rfl
    | cons token ts =>
      have hnot : token ∉ operators .sum := hleaves token (by rw [htokens]; rfl)
      have hhead := head?_text_of_tokens htokens
      rw [List.head?_drop] at hhead
      refine outcomeFrom_of_stops htokens ?_
      cases token <;> simp_all [operators, Token.text] <;> rfl

/-- Behind a whole expression only its end is expected. -/
theorem outcomeFrom_whole (limit : Nat) (x value : Float) (hleaves : Leaves .sum (text.drop cursor)) :
    outcomeFrom limit x (.holding [] cursor value) (text.drop cursor)
      = match text[cursor]? with
        | some c => .error ⟨.unexpectedCharacter c, cursor⟩
        | none => .ok value := by
  cases htokens : tokens (text.drop cursor) with
  | nil =>
    have hhead : text[cursor]? = none := by
      rw [← List.head?_drop, ← textOf_tokens (text.drop cursor), htokens]
      rfl
    rw [outcomeFrom, htokens, hhead]
    rfl
  | cons token ts =>
    have hnot : token ∉ operators .sum := hleaves token (by rw [htokens]; rfl)
    have hhead := head?_text_of_tokens htokens
    rw [List.head?_drop] at hhead
    have hproper := isProper_of_mem_tokens token (htokens ▸ List.mem_cons_self)
    obtain ⟨c, behind, htext⟩ := List.exists_cons_of_ne_nil hproper.text_ne_nil
    rw [htext, List.head?_cons] at hhead
    rw [← hhead]
    refine outcomeFrom_of_stops htokens ?_
    have hread : (Computation.holding [] cursor value).read limit x token
        = Computation.readEnd [] cursor token value := by
      cases token <;> simp_all [operators] <;> rfl
    rw [hread, Computation.readEnd, Computation.close]
    dsimp only
    rw [htext]

theorem isBlank_of_isNumeric {c : Char} (h : isNumeric c = true) : Text.isBlank c = false := by
  rw [isNumeric, Bool.or_eq_true] at h
  rcases h with hdigit | hpoint
  · refine Number.isBlank_of_isDigit ?_
    rw [isDigit, Bool.and_eq_true, decide_eq_true_eq, decide_eq_true_eq] at hdigit
    rw [Char.isDigit, Bool.and_eq_true, decide_eq_true_eq, decide_eq_true_eq]
    exact hdigit
  · obtain rfl : c = '.' := by simpa using hpoint
    decide

theorem isNaN_read {literal : List Char} (h : literal.all isNumeric = true) :
    (Number.read literal).isNaN = !(Number.readNumeral literal).isSome := by
  have htrim : Text.trim literal = literal :=
    Number.trim_eq fun c hc => isBlank_of_isNumeric (List.all_eq_true.mp h c hc)
  cases hread : Number.readNumeral literal with
  | none =>
    rw [Number.read, htrim, hread]
    exact Number.isNaN_nan
  | some numeral =>
    obtain ⟨s, hs, htext⟩ := Number.Spelling.exists_isNumeral_of_readNumeral hread
    rw [Number.read_of_isNumeral hs (htext.trans htrim.symm)]
    exact hs.gives_value.isNaN_eq_false

/-- A run of digits and points has been read since `start`, where no other factor begins. -/
structure IsReadingNumber (text : List Char) (start cursor : Nat) : Prop where
  run : ∃ run, run.all isNumeric = true ∧ cursor = start + run.length
    ∧ text.drop start = run ++ text.drop cursor
  first : ∃ c, text[start]? = some c ∧ c ∉ ['-', '(', 'x']

theorem IsReadingNumber.next {start : Nat} {c : Char} (h : IsReadingNumber text start cursor)
    (hc : text[cursor]? = some c) (hnumeric : isNumeric c = true) :
    IsReadingNumber text start (cursor + 1) := by
  obtain ⟨run, hrun, hcursor, hdrop⟩ := h.run
  refine ⟨⟨run ++ [c], ?_, ?_, ?_⟩, h.first⟩
  · simp [List.all_append, hrun, hnumeric]
  · rw [List.length_append, List.length_singleton, ← Nat.add_assoc, ← hcursor]
  · rw [hdrop, drop_of_getElem? hc, List.append_assoc]
    rfl

theorem outcomeFrom_number (limit : Nat) (x : Float) (stack : List Computation.Frame) {start : Nat}
    (h : IsReadingNumber text start cursor) (hend : text[cursor]?.any isNumeric = false) :
    outcomeFrom limit x (.expecting stack start) (text.drop start)
      = if ((text.drop start).take (cursor - start)).isEmpty then .error ⟨.notAnOperand, cursor⟩
        else if (Number.read ((text.drop start).take (cursor - start))).isNaN then
          .error ⟨.invalidNumber ((text.drop start).take (cursor - start)), cursor⟩
        else outcomeFrom limit x
          (.holding stack cursor (Number.read ((text.drop start).take (cursor - start))))
          (text.drop cursor) := by
  obtain ⟨⟨run, hnumeric, hcursor, hrun⟩, c, hc, hfirst⟩ := h
  have hliteral : (text.drop start).take (cursor - start) = run := by
    rw [hrun, hcursor, Nat.add_sub_cancel_left, List.take_left]
  rw [hliteral]
  by_cases hnil : run = []
  · subst hnil
    obtain rfl : cursor = start := hcursor
    rw [List.isEmpty_nil, if_pos rfl]
    have hne : text.drop cursor ≠ [] := by
      rw [drop_of_getElem? hc]
      exact List.cons_ne_nil _ _
    obtain ⟨token, ts, htokens⟩ := List.exists_cons_of_ne_nil (tokens_ne_nil hne)
    have hhead := head?_text_of_tokens htokens
    have hproper := isProper_of_mem_tokens token (htokens ▸ List.mem_cons_self)
    rw [List.head?_drop, hc] at hhead
    rw [hc] at hend
    refine outcomeFrom_of_stops htokens ?_
    cases token with
    | number literal =>
      have hdigits : ∀ d ∈ literal.head?, isNumeric d = true := fun d hd =>
        List.all_eq_true.mp hproper.2 d (List.mem_of_mem_head? hd)
      rw [Option.any_some, hdigits c hhead] at hend
      cases hend
    | minus | opening | «variable» =>
      obtain rfl := Option.some.inj hhead
      exact absurd (by decide) hfirst
    | plus | times | «over» | power | closing | other _ => rfl
  · rw [if_neg (by rwa [List.isEmpty_iff])]
    have hends : ∀ d ∈ (text.drop cursor).head?, (Token.number run).endsBefore d = true := by
      intro d hd
      rw [List.head?_drop] at hd
      rw [hd] at hend
      simpa [Token.endsBefore] using hend
    have htokens : tokens (text.drop start) = .number run :: tokens (text.drop cursor) := by
      rw [hrun]
      exact tokens_text_append (t := .number run) ⟨hnil, hnumeric⟩ hends
    rw [outcomeFrom_of_tokens htokens, Computation.read, Computation.readOperand]
    have hwidth : (Token.number run).width = run.length := rfl
    rw [isNaN_read hnumeric, hwidth, ← hcursor]
    cases hsome : (Number.readNumeral run).isSome with
    | true => rfl
    | false =>
      rw [if_neg Bool.false_ne_true, outcomeFrom, Computation.foldl_read_stopped]
      rfl

end Tokens

end FunctionGraph.Formula.Descent
