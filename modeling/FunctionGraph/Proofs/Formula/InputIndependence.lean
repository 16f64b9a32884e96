import FunctionGraph.Proofs.Formula.OnePass
import FunctionGraph.Proofs.Formula.Tokens

/-!
# What an evaluation owes to its input

Two evaluations of a text at different inputs are computations over one and the same reading. Only a
divisor that is zero can part them: where there is none, both end as the reading ends. The input itself
is looked at where the variable stands and nowhere else.
-/

namespace FunctionGraph.Formula

section Evaluation

variable {limit : Nat} {text : List Char} {a b x : Float}

theorem evaluateWithin_eq_compute (limit : Nat) (text : List Char) (x : Float) :
    evaluateWithin limit text x = (compute limit (tokens text) x).mapError Stop.cause := by
  rw [evaluateWithin, evaluate_readTokens]

/-- Without a zero divisor an evaluation ends as the reading does. -/
theorem evaluateWithin_of_ne_divisionByZero (h : evaluateWithin limit text x ≠ .error .divisionByZero) :
    evaluateWithin limit text x
      = ((readTokens limit (tokens text)).ending.map (Expr.value x)).mapError Stop.cause := by
  unfold evaluateWithin Reading.evaluate at h ⊢
  split at h
  · exact absurd rfl h
  · rfl

/-- The input is read where the variable stands. -/
theorem Computation.read_eq_read {token : Token} (h : token ≠ .variable) (computation : Computation)
    (a b : Float) : computation.read limit a token = computation.read limit b token := by
  cases computation with
  | expecting stack cursor =>
    cases token with
    | «variable» => exact absurd rfl h
    | _ => rfl
  | holding stack cursor value => rfl
  | stopped stop => rfl

theorem compute_eq_compute {ts : List Token} (h : .variable ∉ ts) (a b : Float) :
    compute limit ts a = compute limit ts b := by
  rw [compute, compute]
  refine congrArg Computation.outcome (List.foldl_ext _ _ _ fun computation token htoken => ?_)
  exact computation.read_eq_read (ne_of_mem_of_not_mem htoken h) a b

theorem variable_not_mem_tokens (h : 'x' ∉ text) : .variable ∉ tokens text := by
  intro hmem
  apply h
  rw [← textOf_tokens text]
  exact List.mem_flatMap.mpr ⟨.variable, hmem, List.mem_singleton.mpr rfl⟩

/-- **The input decides values only.** An evaluation at any input is a computation in one pass over the
tokens. Where it does not meet a zero divisor at either of two inputs, both have a value or both have the
same error, and without the variable in the text the two outcomes are the same altogether. -/
theorem evaluateWithin_parts_at_zero (limit : Nat) (text : List Char) (a b : Float) :
    (∀ x, evaluateWithin limit text x = (compute limit (tokens text) x).mapError Stop.cause) ∧
      (evaluateWithin limit text a ≠ .error .divisionByZero →
        evaluateWithin limit text b ≠ .error .divisionByZero →
        (∃ v w, evaluateWithin limit text a = .ok v ∧ evaluateWithin limit text b = .ok w) ∨
          ∃ cause, evaluateWithin limit text a = .error cause ∧
            evaluateWithin limit text b = .error cause) ∧
      ('x' ∉ text → evaluateWithin limit text a = evaluateWithin limit text b) := by
  refine ⟨evaluateWithin_eq_compute limit text, fun ha hb => ?_, fun hx => ?_⟩
  · rw [evaluateWithin_of_ne_divisionByZero ha, evaluateWithin_of_ne_divisionByZero hb]
    cases (readTokens limit (tokens text)).ending with
    | ok expr => exact Or.inl ⟨expr.value a, expr.value b, rfl, rfl⟩
    | error stop => exact Or.inr ⟨stop.cause, rfl, rfl⟩
  · rw [evaluateWithin_eq_compute, evaluateWithin_eq_compute,
      compute_eq_compute (variable_not_mem_tokens hx) a b]

/-- The group of `(1/x` stays open at 1 and at 2, but at 0 the division comes first. -/
theorem evaluateWithin_parts_at_zero_of_open_group :
    evaluateWithin 4 ['(', '1', '/', 'x'] 0 = .error .divisionByZero ∧
      (∃ cause, evaluateWithin 4 ['(', '1', '/', 'x'] 1 = .error cause ∧
        evaluateWithin 4 ['(', '1', '/', 'x'] 2 = .error cause) ∧
      evaluateWithin 0 ['8', '/', '2', '/', '2'] 0 = evaluateWithin 0 ['8', '/', '2', '/', '2'] 1 := by
  have hopen := (evaluateWithin_parts_at_zero 4 ['(', '1', '/', 'x'] 1 2).2.1 (by decide +kernel)
    (by decide +kernel)
  have hconstant := (evaluateWithin_parts_at_zero 0 ['8', '/', '2', '/', '2'] 0 1).2.2 (by decide)
  refine ⟨by decide +kernel, hopen.resolve_left ?_, hconstant⟩
  rintro ⟨v, w, hv, -⟩
  have herror : evaluateWithin 4 ['(', '1', '/', 'x'] 1 = .error .unclosedGroup := by decide +kernel
  rw [herror] at hv
  contradiction

end Evaluation

end FunctionGraph.Formula
