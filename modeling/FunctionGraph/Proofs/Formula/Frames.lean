import FunctionGraph.Proofs.Formula.Grammar

/-!
# Open frames and the levels of the grammar

The innermost open frame decides the level of the operand that stands next, and a token closes the
frames that wait for an operand of a tighter level than its own. Both directions of the reading
theorem start from these two facts.
-/

namespace FunctionGraph.Formula

/-- The level of the operand that the frame waits for. -/
def Frame.level : Frame → Level
  | .group => .sum
  | .negate => .power
  | .power _ => .product
  | .binary operation _ => operation.operandLevel

/-- The level of the operand that stands next. -/
def operandLevel : List Frame → Level
  | [] => .sum
  | frame :: _ => frame.level

/-- The level of what stands in front of a sign: a product sign has a product there, and any other token
a whole sum. -/
def closedLevel (inProduct : Bool) : Level :=
  if inProduct then .product else .sum

theorem Operation.level_le_product_iff (operation : Operation) :
    operation.level ≤ .product ↔ operation.isProduct = true := by
  cases operation <;> decide

theorem Frame.power_le_level (frame : Frame) : .power ≤ frame.level := by
  cases frame with
  | group | negate | power _ => simp [Frame.level, Level.le_iff, Level.rank]
  | binary operation _ =>
    cases operation <;> simp [Frame.level, Operation.operandLevel, Operation.isProduct,
      Level.le_iff, Level.rank]

theorem power_le_operandLevel (stack : List Frame) : .power ≤ operandLevel stack := by
  cases stack with
  | nil => exact Level.le_sum _
  | cons frame stack => exact frame.power_le_level

namespace Progress

variable (inProduct : Bool) (stack : List Frame) (cursor : Nat) (divisors : List Divisor)
  (operand : Expr)

theorem collapse_negate :
    collapse inProduct ⟨.negate :: stack, cursor, divisors⟩ operand
      = collapse inProduct ⟨stack, cursor, divisors⟩ (.negate operand) := by
  rw [collapse]

theorem collapse_power (base : Expr) :
    collapse false ⟨.power base :: stack, cursor, divisors⟩ operand
      = collapse false ⟨stack, cursor, divisors⟩ (.power base operand) := by
  rw [collapse, if_neg Bool.false_ne_true]

/-- Closing an operation completes a divisor when it is a division. -/
theorem collapse_binary {inProduct : Bool} (operation : Operation) (left : Expr)
    (h : inProduct = true → operation.isProduct = true) :
    collapse inProduct ⟨.binary operation left :: stack, cursor, divisors⟩ operand
      = collapse inProduct
          ⟨stack, cursor, (if operation = .divide then [⟨operand, cursor⟩] else []) ++ divisors⟩
          (.binary operation left operand) := by
  have hstop : ¬(inProduct && !operation.isProduct) = true := by
    cases inProduct with
    | false => simp
    | true => simp [h rfl]
  rw [collapse, if_neg hstop]

variable {inProduct stack cursor divisors operand}

/-- Nothing closes where the innermost frame waits for an operand as loose as the one in front. -/
theorem collapse_eq_self {p : Progress} (h : closedLevel inProduct ≤ operandLevel p.stack)
    (operand : Expr) : p.collapse inProduct operand = (p, operand) := by
  obtain ⟨stack, cursor, divisors⟩ := p
  cases stack with
  | nil => rw [collapse]
  | cons frame stack =>
    have hle : (closedLevel inProduct).rank ≤ frame.level.rank := h
    cases frame with
    | group => rw [collapse]
    | negate => cases inProduct <;> simp [closedLevel, Frame.level, Level.rank] at hle
    | power base =>
      cases inProduct with
      | false => simp [closedLevel, Frame.level, Level.rank] at hle
      | true => rw [collapse, if_pos rfl]
    | binary operation left =>
      have hstop : (inProduct && !operation.isProduct) = true := by
        cases inProduct <;> cases hproduct : operation.isProduct <;>
          simp [closedLevel, Frame.level, Operation.operandLevel, hproduct, Level.rank] at hle ⊢
      rw [collapse, if_pos hstop]

end Progress

/-- What closing does, frame by frame, until it meets a frame that waits for an operand as loose as the
one in front. -/
inductive Closes (inProduct : Bool) : Progress × Expr → Progress × Expr → Prop where
  | stop {p : Progress} {operand : Expr} (hwaits : closedLevel inProduct ≤ operandLevel p.stack) :
      Closes inProduct (p, operand) (p, operand)
  | negate {stack : List Frame} {cursor : Nat} {divisors : List Divisor} {operand : Expr}
      {closed : Progress × Expr}
      (h : Closes inProduct (⟨stack, cursor, divisors⟩, .negate operand) closed) :
      Closes inProduct (⟨.negate :: stack, cursor, divisors⟩, operand) closed
  | power {stack : List Frame} {cursor : Nat} {divisors : List Divisor} {base operand : Expr}
      {closed : Progress × Expr} (hend : inProduct = false)
      (h : Closes inProduct (⟨stack, cursor, divisors⟩, .power base operand) closed) :
      Closes inProduct (⟨.power base :: stack, cursor, divisors⟩, operand) closed
  | binary {stack : List Frame} {cursor : Nat} {divisors completed : List Divisor}
      {operation : Operation} {left operand : Expr} {closed : Progress × Expr}
      (hproduct : inProduct = true → operation.isProduct = true)
      (h : Closes inProduct (⟨stack, cursor, completed ++ divisors⟩, .binary operation left operand)
        closed) :
      Closes inProduct (⟨.binary operation left :: stack, cursor, divisors⟩, operand) closed

theorem closes_collapse (inProduct : Bool) (p : Progress) (operand : Expr) :
    Closes inProduct (p, operand) (p.collapse inProduct operand) := by
  obtain ⟨stack, cursor, divisors⟩ := p
  induction stack generalizing operand divisors with
  | nil =>
    rw [Progress.collapse_eq_self (Level.le_sum _)]
    exact .stop (Level.le_sum _)
  | cons frame stack ih =>
    by_cases hwaits : closedLevel inProduct ≤ frame.level
    · rw [Progress.collapse_eq_self hwaits]
      exact .stop hwaits
    cases frame with
    | group => exact absurd (Level.le_sum _) hwaits
    | negate =>
      rw [Progress.collapse_negate]
      exact .negate (ih _ _)
    | power base =>
      cases inProduct with
      | true => exact absurd (Nat.le_refl _) hwaits
      | false =>
        rw [Progress.collapse_power]
        exact .power rfl (ih _ _)
    | binary operation left =>
      have hproduct : inProduct = true → operation.isProduct = true := by
        rintro rfl
        cases operation with
        | multiply | divide => rfl
        | add | subtract => exact absurd (Nat.le_refl _) hwaits
      rw [Progress.collapse_binary _ _ _ _ _ _ hproduct]
      exact .binary hproduct (ih _ _)

end FunctionGraph.Formula
