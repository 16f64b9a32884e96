import FunctionGraph.Proofs.Formula.Lookahead
import FunctionGraph.Proofs.Formula.OnePass

/-!
# The earliest error wins

An error is found with the token at which a computation stops. It stands in front of this token or, for a
number that is none and for a nesting that is too deep, behind it. In both cases two characters from
there on tell everything that led to the error, so whatever is written further to the right, the error is
the same.
-/

namespace FunctionGraph.Formula

namespace Computation

/-- The computation goes on, and this many characters have been read. -/
def IsAt (cursor : Nat) : Computation → Prop
  | .expecting _ c => c = cursor
  | .holding _ c _ => c = cursor
  | .stopped _ => False

/-- What a token leads to: the computation goes on behind it, or it has stopped in front of it or behind
it. -/
def GoesOn (cursor : Nat) (token : Token) (next : Computation) : Prop :=
  next.IsAt (cursor + token.width)
    ∨ ∃ stop, next = .stopped stop ∧ (stop.cursor = cursor ∨ stop.cursor = cursor + token.width)

section Step

variable {limit cursor : Nat} {x value : Float} {stack : List Frame} {token t u : Token}
  {computation : Computation} {stop : Stop}

theorem cursor_of_close {inProduct : Bool} (h : close inProduct cursor stack value = .error stop) :
    stop.cursor = cursor := by
  fun_induction close inProduct cursor stack value with
  | case1 _ _ ih => exact ih h
  | case2 | case4 | case7 | case8 => contradiction
  | case3 _ _ _ _ ih => exact ih h
  | case5 => exact (Except.error.inj h) ▸ rfl
  | case6 _ _ _ _ _ _ ih => exact ih h

theorem goesOn_push (frame : Frame) :
    GoesOn cursor token (push limit stack cursor token frame) := by
  unfold push
  split
  · exact Or.inr ⟨_, rfl, Or.inr rfl⟩
  · exact Or.inl rfl

theorem goesOn_readOperand : GoesOn cursor token (readOperand limit x stack cursor token) := by
  cases token with
  | minus | opening => exact goesOn_push _
  | «variable» => exact Or.inl rfl
  | number literal =>
    unfold readOperand
    dsimp only
    split
    · exact Or.inl rfl
    · exact Or.inr ⟨_, rfl, Or.inr rfl⟩
  | plus | times | «over» | power | closing | other _ => exact Or.inr ⟨_, rfl, Or.inl rfl⟩

theorem goesOn_pushBinary (operation : Operation) :
    GoesOn cursor token (pushBinary limit stack cursor token operation value) := by
  unfold pushBinary
  split
  · next stop hclose => exact Or.inr ⟨stop, rfl, Or.inl (cursor_of_close hclose)⟩
  · exact goesOn_push _

theorem goesOn_readEnd : GoesOn cursor token (readEnd stack cursor token value) := by
  unfold readEnd
  split
  · next stop hclose => exact Or.inr ⟨stop, rfl, Or.inl (cursor_of_close hclose)⟩
  · split
    · exact Or.inl rfl
    · exact Or.inr ⟨_, rfl, Or.inl rfl⟩
    · split <;> exact Or.inr ⟨_, rfl, Or.inl rfl⟩

theorem goesOn_readOperator : GoesOn cursor token (readOperator limit stack cursor token value) := by
  cases token with
  | power => exact goesOn_push _
  | plus | minus | times | «over» => exact goesOn_pushBinary _
  | number _ | «variable» | opening | closing | other _ => exact goesOn_readEnd

theorem IsAt.goesOn (h : computation.IsAt cursor) (limit : Nat) (x : Float) (token : Token) :
    GoesOn cursor token (computation.read limit x token) := by
  cases computation with
  | expecting stack c => exact h ▸ goesOn_readOperand
  | holding stack c value => exact h ▸ goesOn_readOperator
  | stopped stop => exact h.elim

/-- Where a number is no operand, the end in front of it depends on its first character only. -/
theorem readEnd_number (c : Char) (run more : List Char)
    (hread : readEnd stack cursor (.number (c :: run)) value = .stopped stop) :
    readEnd stack cursor (.number (c :: more)) value = .stopped stop := by
  unfold readEnd at hread ⊢
  cases hclose : close false cursor stack value with
  | error stop' =>
    rw [hclose] at hread
    exact hread
  | ok closed =>
    rw [hclose] at hread
    obtain ⟨_ | ⟨frame, open_⟩, inner⟩ := closed
    · exact hread
    · exact hread

/-- An error in front of a token is the same for a number that goes on in another way. -/
theorem IsAt.read_alike (h : computation.IsAt cursor) (halike : t.Alike u)
    (hread : computation.read limit x t = .stopped stop) (hcursor : stop.cursor = cursor) :
    computation.read limit x u = .stopped stop := by
  obtain rfl | ⟨c, run, more, rfl, rfl⟩ := halike
  · exact hread
  cases computation with
  | stopped _ => exact h.elim
  | holding stack c' value => exact readEnd_number c run more hread
  | expecting stack cursor' =>
    obtain rfl : cursor' = cursor := h
    have hwidth : 0 < (Token.number (c :: run)).width := Nat.succ_pos _
    simp only [Computation.read, readOperand] at hread
    split at hread
    · contradiction
    · obtain rfl := Computation.stopped.inj hread
      exact absurd hcursor (by dsimp only; omega)

theorem IsAt.cursor_of_outcome (h : computation.IsAt cursor)
    (herror : computation.outcome = .error stop) : stop.cursor = cursor := by
  cases computation with
  | stopped _ => exact h.elim
  | expecting stack c => exact (Except.error.inj herror) ▸ h
  | holding stack c value =>
    obtain rfl : c = cursor := h
    unfold outcome at herror
    dsimp only at herror
    split at herror
    · next hclose => exact (Except.error.inj herror) ▸ cursor_of_close hclose
    · contradiction
    · exact (Except.error.inj herror) ▸ rfl

theorem foldl_read_stopped (ts : List Token) :
    ts.foldl (read limit x) (.stopped stop) = .stopped stop :=
  List.foldl_fixed' (fun _ => rfl) ts

/-- An error that is not found at the end is found with one of the tokens. -/
theorem IsAt.exists_stop {ts : List Token} (h : computation.IsAt cursor)
    (herror : (ts.foldl (read limit x) computation).outcome = .error stop)
    (hinside : stop.cursor < cursor + (textOf ts).length) :
    ∃ seen token rest, ts = seen ++ token :: rest
      ∧ (seen.foldl (read limit x) computation).IsAt (cursor + (textOf seen).length)
      ∧ (seen.foldl (read limit x) computation).read limit x token = .stopped stop := by
  induction ts generalizing computation cursor with
  | nil =>
    have hcursor := h.cursor_of_outcome herror
    rw [textOf_nil, List.length_nil] at hinside
    omega
  | cons token rest ih =>
    rw [List.foldl_cons] at herror
    rw [textOf_cons, List.length_append] at hinside
    rcases h.goesOn limit x token with hnext | ⟨stop', hstop, -⟩
    · obtain ⟨seen, t, behind, rfl, hat, hread⟩ :=
        ih hnext herror (by rw [Token.width]; omega)
      refine ⟨token :: seen, t, behind, rfl, ?_, hread⟩
      rwa [textOf_cons, List.length_append, ← Nat.add_assoc]
    · rw [hstop, foldl_read_stopped] at herror
      obtain rfl := Except.error.inj herror
      exact ⟨[], token, rest, rfl, h, hstop⟩

end Step

end Computation

section Error

variable {limit : Nat} {text other front behind : List Char} {x : Float} {stop : Stop}

/-- The token that stands where the error is comes with a rest that two characters begin. -/
theorem compute_append (herror : compute limit (tokens (front ++ behind)) x = .error stop)
    (hfront : front.length = stop.cursor + 2) (other : List Char) :
    compute limit (tokens (front ++ other)) x = .error stop := by
  have hlength : (textOf (tokens (front ++ behind))).length = front.length + behind.length := by
    rw [textOf_tokens, List.length_append]
  have hstart : Computation.start.IsAt 0 := rfl
  obtain ⟨seen, token, rest, htokens, hat, hread⟩ := hstart.exists_stop herror
    (show stop.cursor < 0 + (textOf (tokens (front ++ behind))).length by omega)
  rw [Nat.zero_add] at hat
  have hstops : ∀ us more, tokens (front ++ other) = us ++ more →
      us.foldl (Computation.read limit x) .start = .stopped stop →
      compute limit (tokens (front ++ other)) x = .error stop := by
    intro us more hus hstopped
    rw [compute, hus, List.foldl_append, hstopped, Computation.foldl_read_stopped]
    rfl
  obtain hnext | ⟨stop', hstop, hcursor⟩ := hat.goesOn limit x token
  · rw [hread] at hnext
    exact hnext.elim
  obtain rfl := Computation.stopped.inj (hread.symm.trans hstop)
  rcases hcursor with hbefore | hbehind
  · -- The error is in front of the token, and the token there is alike.
    obtain ⟨u, us, hu, halike⟩ := tokens_append_of_front htokens (by rw [hfront, hbefore]) other
    refine hstops (seen ++ [u]) us (by rw [hu, List.append_assoc]; rfl) ?_
    rw [List.foldl_append]
    exact hat.read_alike halike hread hbefore
  · -- The error is behind the token, which is the same in both texts.
    have hseen : stop.cursor = (textOf (seen ++ [token])).length := by
      rw [textOf_append, textOf_cons, textOf_nil, List.append_nil, List.length_append, hbehind]
      rfl
    cases rest with
    | nil =>
      rw [htokens, hfront] at hlength
      omega
    | cons next rest =>
      have hagain : tokens (front ++ behind) = (seen ++ [token]) ++ next :: rest := by
        rw [htokens, List.append_assoc]
        rfl
      obtain ⟨u, us, hu, -⟩ := tokens_append_of_front hagain (by rw [hfront, hseen]) other
      refine hstops (seen ++ [token]) (u :: us) hu ?_
      rw [List.foldl_append]
      exact hread

/-- **The earliest error wins.** Where an evaluation has an error with two more characters behind it,
every text that begins with the same characters up to there has this error, at the same place. -/
theorem evaluate_of_take_eq (herror : (readTokens limit (tokens text)).evaluate x = .error stop)
    (hroom : stop.cursor + 2 ≤ text.length)
    (hsame : other.take (stop.cursor + 2) = text.take (stop.cursor + 2)) :
    (readTokens limit (tokens other)).evaluate x = .error stop
      ∧ evaluateWithin limit other x = .error stop.cause := by
  have hfront : (text.take (stop.cursor + 2)).length = stop.cursor + 2 :=
    List.length_take_of_le hroom
  rw [evaluate_readTokens, ← List.take_append_drop (stop.cursor + 2) text] at herror
  have hother := compute_append herror hfront (other.drop (stop.cursor + 2))
  rw [← hsame, List.take_append_drop, ← evaluate_readTokens] at hother
  exact ⟨hother, by rw [evaluateWithin, hother]; rfl⟩

/-- The division in `1/0+2` is refused whatever `+2` is followed by. -/
theorem evaluate_of_take_eq_at_division :
    (readTokens nestingLimit (tokens ['1', '/', '0', '+', '2'])).evaluate 5
        = .error ⟨.divisionByZero, 3⟩ ∧
      evaluateText ['1', '/', '0', '+', '2', ')', '.'] 5 = .error .divisionByZero := by
  have herror : (readTokens nestingLimit (tokens ['1', '/', '0', '+', '2'])).evaluate 5
      = .error ⟨.divisionByZero, 3⟩ := by decide +kernel
  exact ⟨herror, (evaluate_of_take_eq herror (by decide)
    (show ['1', '/', '0', '+', '2', ')', '.'].take 5 = _ by decide)).2⟩

end Error

end FunctionGraph.Formula
