import FunctionGraph.Proofs.Formula.Descent
import Mathlib.Data.Nat.Count
import Mathlib.Order.Interval.Finset.Nat
import Mathlib.Order.Monotone.Basic

/-!
# A descent is safe and ends

A step looks at characters of the text only, moves over characters it has looked at, and divides by no
zero. It moves forwards or brings the descent closer to a return, and both have a price in one potential
that is linear in the length of the text, so the descent ends. Two calls of the procedure for factors
never happen at the same place, because such a call moves forwards before anything else is called or
returns.
-/

namespace FunctionGraph.Formula.Descent

/-! ### What a single act does -/

/-- An act at the cursor stays in the text, has no event that could go wrong, and does not crash. -/
structure Act.IsSafe (text : List Char) (cursor : Nat) (act : Act) : Prop where
  moved : cursor + act.moved ≤ text.length
  access : ∀ place, .access place ∈ act.events → place < text.length
  divide : ∀ divisor, .divide divisor ∈ act.events → (divisor == 0) = false
  crash : ∀ crash, act.next ≠ .stop (.crashed crash)

/-- Inside of a call, the only end is an error. -/
structure Act.IsInner (text : List Char) (cursor : Nat) (act : Act) : Prop
    extends act.IsSafe text cursor where
  raises : ∀ ending, act.next = .stop ending → ∃ stop, ending = .raised stop

section Acts

variable {text : List Char} {x value : Float} {cursor moved : Nat} {next : Next} {events : List Event}

theorem mem_peeked {event : Event} (h : event ∈ peeked text cursor) :
    event = .access cursor ∧ cursor < text.length := by
  unfold peeked at h
  split at h
  · next hlt => exact ⟨List.mem_singleton.mp h, hlt⟩
  · cases h

theorem isInner_of_peeked (hevents : ∀ event ∈ events, event ∈ peeked text cursor)
    (hmoved : cursor + moved ≤ text.length)
    (hraises : ∀ ending, next = .stop ending → ∃ stop, ending = .raised stop) :
    Act.IsInner text cursor ⟨events, moved, next⟩ where
  moved := hmoved
  access place hplace := by
    obtain ⟨heq, hlt⟩ := mem_peeked (hevents _ hplace)
    rwa [Event.access.inj heq]
  divide divisor hdivide := by
    obtain ⟨heq, -⟩ := mem_peeked (hevents _ hdivide)
    cases heq
  crash crash hcrash := by
    obtain ⟨stop, hstop⟩ := hraises _ hcrash
    cases hstop
  raises := hraises

theorem isInner_silent (hmoved : cursor + moved ≤ text.length)
    (hraises : ∀ ending, next = .stop ending → ∃ stop, ending = .raised stop) :
    Act.IsInner text cursor ⟨[], moved, next⟩ :=
  isInner_of_peeked (fun _ hevent => absurd hevent List.not_mem_nil) hmoved hraises

theorem isInner_peek (hmoved : cursor + moved ≤ text.length)
    (hraises : ∀ ending, next = .stop ending → ∃ stop, ending = .raised stop) :
    Act.IsInner text cursor ⟨peeked text cursor, moved, next⟩ :=
  isInner_of_peeked (fun _ => id) hmoved hraises

theorem succ_le_length {c : Char} (h : text[cursor]? = some c) : cursor + 1 ≤ text.length :=
  (List.getElem?_eq_some_iff.mp h).1

theorem add_two_le_length (h : ['*', '*'] <+: text.drop cursor) : cursor + 2 ≤ text.length := by
  have hlength := h.length_le
  rw [List.length_drop, List.length_cons, List.length_singleton] at hlength
  omega

theorem isInner_enter (h : cursor ≤ text.length) (procedure : Procedure) :
    (enter text x cursor procedure).IsInner text cursor := by
  cases procedure with
  | chain inProduct => exact isInner_silent h (by simp)
  | power => exact isInner_silent h (by simp)
  | loop inProduct left =>
    rw [enter]
    split
    · next operation hoperation =>
      obtain ⟨c, hc, -⟩ := Option.bind_eq_some_iff.mp hoperation
      exact isInner_peek (succ_le_length hc) (by simp)
    · exact isInner_peek h (by simp)
  | exponent base =>
    rw [enter]
    split
    · next hpower => exact isInner_silent (add_two_le_length hpower) (by simp)
    · exact isInner_silent h (by simp)
  | factor =>
    rw [enter]
    split
    · exact isInner_silent h (by simp [raise])
    · next hc => exact isInner_peek (succ_le_length hc) (by simp)
    · next hc => exact isInner_peek (succ_le_length hc) (by simp)
    · next hc => exact isInner_peek (succ_le_length hc) (by simp)
    · exact isInner_peek h (by simp)
  | number start =>
    rw [enter]
    split
    · next hnumeric =>
      obtain ⟨c, hc, -⟩ := (Option.any_eq_true _ _).mp hnumeric
      exact isInner_peek (succ_le_length hc) (by simp)
    · dsimp only
      split
      · exact isInner_peek h (by simp [raise])
      · split
        · exact isInner_peek h (by simp [raise])
        · exact isInner_peek h (by simp)

theorem isInner_resume (h : cursor ≤ text.length) (frame : Waiting) :
    (resume text cursor value frame).IsInner text cursor := by
  cases frame with
  | first inProduct => exact isInner_silent h (by simp)
  | base | raise _ | negate => exact isInner_silent h (by simp)
  | group =>
    rw [resume]
    split
    · next hc => exact isInner_peek (succ_le_length hc) (by simp)
    · exact isInner_peek h (by simp [raise])
  | operand operation left =>
    rw [resume]
    split
    · split
      · exact isInner_silent h (by simp [Descent.raise])
      · next hzero =>
        have hne : (value == 0) = false := Bool.eq_false_iff.mpr hzero
        rw [Scalar.divide_of_ne hne]
        refine ⟨⟨h, by simp, fun divisor hdivisor => ?_, by simp⟩, by simp⟩
        obtain rfl : divisor = value := by simpa using hdivisor
        exact hne
    · exact isInner_silent h (by simp)

theorem isSafe_finish (h : cursor ≤ text.length) : (finish text cursor value).IsSafe text cursor := by
  rw [finish]
  split
  · exact ⟨h, by simp, by simp, by simp⟩
  · next hne =>
    have hlt : cursor < text.length := by omega
    rw [List.getElem?_eq_getElem hlt]
    have hinner : Act.IsInner text cursor
        ⟨[.access cursor], 0, raise cursor (.unexpectedCharacter text[cursor])⟩ :=
      isInner_of_peeked (fun event hevent => by rwa [peeked, if_pos hlt]) h (by simp [raise])
    exact hinner.toIsSafe

end Acts

/-! ### The price of an act -/

def Procedure.weight : Procedure → Nat
  | .chain false => 12
  | .chain true => 9
  | .power => 6
  | .factor => 3
  | .loop _ _ | .exponent _ | .number _ => 2

def Waiting.weight : Waiting → Nat
  | .first _ | .operand _ _ | .base => 2
  | .raise _ | .negate | .group => 1

def Next.weight : Next → Nat
  | .goOn procedure => procedure.weight
  | .call procedure frame => procedure.weight + frame.weight
  | .back _ => 1
  | .stop _ => 0

def Control.weight : Control → Nat
  | .perform procedure => procedure.weight
  | .back _ => 1
  | .ended _ => 0

def totalWeight : List Waiting → Nat
  | [] => 0
  | frame :: waiting => frame.weight + totalWeight waiting

/-- What a descent can still pay for: steps on the way to a return, and characters. -/
def Config.potential (text : List Char) (c : Config) : Nat :=
  c.control.weight + totalWeight c.waiting + 11 * (text.length - c.cursor)

/-- A character that is moved over pays for the calls behind it. -/
theorem weight_enter (text : List Char) (x : Float) (cursor : Nat) (procedure : Procedure) :
    (enter text x cursor procedure).next.weight
      < procedure.weight + 11 * (enter text x cursor procedure).moved := by
  cases procedure with
  | chain inProduct =>
    cases inProduct <;> simp [enter, Next.weight, Procedure.weight, Waiting.weight, operandOf]
  | power => simp [enter, Next.weight, Procedure.weight, Waiting.weight]
  | loop inProduct left =>
    rw [enter]
    split
    · cases inProduct <;> simp [Next.weight, Procedure.weight, Waiting.weight, operandOf]
    · simp [Next.weight, Procedure.weight]
  | exponent base =>
    rw [enter]
    split <;> simp [Next.weight, Procedure.weight, Waiting.weight]
  | factor =>
    rw [enter]
    split <;> simp [Next.weight, Procedure.weight, Waiting.weight, raise]
  | number start =>
    rw [enter]
    split
    · simp [Next.weight, Procedure.weight]
    · dsimp only
      split
      · simp [Next.weight, Procedure.weight, raise]
      · split <;> simp [Next.weight, Procedure.weight, raise]

theorem weight_resume (text : List Char) (cursor : Nat) (value : Float) (frame : Waiting) :
    (resume text cursor value frame).next.weight
      < 1 + frame.weight + 11 * (resume text cursor value frame).moved := by
  cases frame with
  | first _ | base | raise _ | negate => simp [resume, Next.weight, Procedure.weight, Waiting.weight]
  | group =>
    rw [resume]
    split <;> simp [Next.weight, Waiting.weight, raise]
  | operand operation left =>
    rw [resume]
    split
    · split
      · simp [Next.weight, Waiting.weight, Descent.raise]
      · split <;> simp [Next.weight, Procedure.weight, Waiting.weight]
    · simp [Next.weight, Procedure.weight, Waiting.weight]

theorem weight_finish (text : List Char) (cursor : Nat) (value : Float) :
    (finish text cursor value).next.weight < 1 := by
  rw [finish]
  split
  · simp [Next.weight]
  · split <;> simp [Next.weight, raise]

/-! ### What a single step does -/

section Steps

variable {text : List Char} {x : Float} {c : Config} {waiting : List Waiting} {act : Act}

/-- The one act of a step is safe, and is paid for. -/
theorem isSafe_of_act? (hcursor : c.cursor ≤ text.length) (h : act? text x c = some (waiting, act)) :
    act.IsSafe text c.cursor ∧ act.next.weight + totalWeight waiting
      < c.control.weight + totalWeight c.waiting + 11 * act.moved := by
  obtain ⟨control, waiting', cursor⟩ := c
  cases control with
  | perform procedure =>
    obtain ⟨rfl, rfl⟩ := Prod.mk.inj (Option.some.inj h)
    have hweight := weight_enter text x cursor procedure
    refine ⟨(isInner_enter hcursor procedure).toIsSafe, ?_⟩
    simp only [Control.weight]
    omega
  | back value =>
    cases waiting' with
    | nil =>
      obtain ⟨rfl, rfl⟩ := Prod.mk.inj (Option.some.inj h)
      have hweight := weight_finish text cursor value
      refine ⟨isSafe_finish hcursor, ?_⟩
      simp only [Control.weight]
      omega
    | cons frame waiting' =>
      obtain ⟨rfl, rfl⟩ := Prod.mk.inj (Option.some.inj h)
      have hweight := weight_resume text cursor value frame
      refine ⟨(isInner_resume hcursor frame).toIsSafe, ?_⟩
      simp only [Control.weight, totalWeight]
      omega
  | ended ending => cases h

theorem cursor_apply (act : Act) (waiting : List Waiting) (cursor : Nat) :
    (act.apply waiting cursor).cursor = cursor + act.moved := by
  unfold Act.apply
  split <;> rfl

theorem weight_apply (act : Act) (waiting : List Waiting) (cursor : Nat) :
    (act.apply waiting cursor).control.weight + totalWeight (act.apply waiting cursor).waiting
      = act.next.weight + totalWeight waiting := by
  unfold Act.apply
  split <;> next hnext => simp [hnext, Next.weight, Control.weight, totalWeight, Nat.add_assoc]

theorem act?_eq_none_iff : act? text x c = none ↔ ∃ ending, c.control = .ended ending := by
  obtain ⟨control, waiting, cursor⟩ := c
  cases control with
  | perform procedure => simp [act?]
  | back value => cases waiting <;> simp [act?]
  | ended ending => simp [act?]

theorem step_of_act? (h : act? text x c = some (waiting, act)) :
    step text x c = act.apply waiting c.cursor := by
  rw [step, h]

theorem step_of_ended (h : act? text x c = none) : step text x c = c := by
  rw [step, h]

theorem cursor_le_step (c : Config) : c.cursor ≤ (step text x c).cursor := by
  cases h : act? text x c with
  | none => rw [step_of_ended h]
  | some next =>
    rw [step_of_act? h, cursor_apply]
    exact Nat.le_add_right _ _

theorem cursor_step_le (hcursor : c.cursor ≤ text.length) :
    (step text x c).cursor ≤ text.length := by
  cases h : act? text x c with
  | none => rwa [step_of_ended h]
  | some next =>
    rw [step_of_act? h, cursor_apply]
    exact (isSafe_of_act? hcursor h).1.moved

/-- Until the end, every step costs. -/
theorem potential_step_lt (hcursor : c.cursor ≤ text.length)
    (h : act? text x c = some (waiting, act)) :
    (step text x c).potential text < c.potential text := by
  obtain ⟨hsafe, hweight⟩ := isSafe_of_act? hcursor h
  have hmoved := hsafe.moved
  rw [step_of_act? h, Config.potential, Config.potential, weight_apply, cursor_apply]
  omega

end Steps

/-! ### Calls -/

/-- The descent has moved on from the place, is about to or fails to. -/
def Config.IsPast (place : Nat) (c : Config) : Prop :=
  place < c.cursor ∨ (c.control = .perform (.number place) ∧ c.cursor = place)
    ∨ ∃ ending, c.control = .ended ending

/-- The call that was made when these procedures waited is not over. -/
structure Config.IsWithin (waiting : List Waiting) (c : Config) : Prop where
  suffix : waiting <:+ c.waiting
  running : ∀ ending, c.control ≠ .ended ending

/-- A call is over when the value comes back to the procedures that waited when it was made. -/
def Config.Returns (waiting : List Waiting) (c : Config) : Prop :=
  c.waiting = waiting ∧ ∃ value, c.control = .back value

def Config.Raises (c : Config) : Prop :=
  ∃ stop, c.control = .ended (.raised stop)

def Control.isFactor : Control → Bool
  | .perform .factor => true
  | _ => false

section Calls

variable {text : List Char} {x : Float} {c : Config} {waiting outer : List Waiting} {act : Act}
  {cursor place : Nat}

theorem isPast_enter_factor : ((enter text x cursor .factor).apply waiting cursor).IsPast cursor := by
  rw [enter]
  split
  · exact Or.inr (Or.inr ⟨_, rfl⟩)
  · exact Or.inl (Nat.lt_succ_self _)
  · exact Or.inl (Nat.lt_succ_self _)
  · exact Or.inl (Nat.lt_succ_self _)
  · exact Or.inr (Or.inl ⟨rfl, rfl⟩)

/-- A number without characters is an error. -/
theorem isPast_enter_number :
    ((enter text x cursor (.number cursor)).apply waiting cursor).IsPast cursor := by
  rw [enter]
  split
  · exact Or.inl (Nat.lt_succ_self _)
  · rw [Nat.sub_self, List.take_zero]
    exact Or.inr (Or.inr ⟨_, rfl⟩)

theorem isPast_step (h : c.IsPast place) : (step text x c).IsPast place := by
  rcases h with hlt | ⟨hcontrol, rfl⟩ | ⟨ending, hended⟩
  · exact Or.inl (hlt.trans_le (cursor_le_step c))
  · have hact : act? text x c = some (c.waiting, enter text x c.cursor (.number c.cursor)) := by
      rw [act?, hcontrol]
    rw [step_of_act? hact]
    exact isPast_enter_number
  · rw [step_of_ended (act?_eq_none_iff.mpr ⟨ending, hended⟩)]
    exact Or.inr (Or.inr ⟨ending, hended⟩)

theorem Config.IsPast.cursor_lt (h : c.IsPast place)
    (hnumber : ∀ start, c.control ≠ .perform (.number start))
    (hrunning : ∀ ending, c.control ≠ .ended ending) : place < c.cursor := by
  rcases h with hcursor | ⟨hcontrol, -⟩ | ⟨ending, hended⟩
  · exact hcursor
  · exact absurd hcontrol (hnumber place)
  · exact absurd hended (hrunning ending)

theorem isWithin_apply (h : act.IsInner text cursor) (hsuffix : outer <:+ waiting) :
    (act.apply waiting cursor).IsWithin outer ∨ (act.apply waiting cursor).Raises := by
  unfold Act.apply
  split
  · exact Or.inl ⟨hsuffix, by simp⟩
  · exact Or.inl ⟨hsuffix.trans (List.suffix_cons _ _), by simp⟩
  · exact Or.inl ⟨hsuffix, by simp⟩
  · next ending hstop =>
    obtain ⟨stop, rfl⟩ := h.raises ending hstop
    exact Or.inr ⟨stop, rfl⟩

/-- A call that has not returned goes on or raises an error. -/
theorem isWithin_step (hcursor : c.cursor ≤ text.length) (h : c.IsWithin outer)
    (hreturns : ¬c.Returns outer) : (step text x c).IsWithin outer ∨ (step text x c).Raises := by
  obtain ⟨control, waiting, cursor⟩ := c
  cases control with
  | perform procedure => exact isWithin_apply (isInner_enter hcursor procedure) h.suffix
  | ended ending => exact absurd rfl (h.running ending)
  | back value =>
    cases waiting with
    | nil => exact absurd ⟨(List.suffix_nil.mp h.suffix).symm, value, rfl⟩ hreturns
    | cons frame waiting =>
      rcases List.suffix_cons_iff.mp h.suffix with rfl | hsuffix
      · exact absurd ⟨rfl, value, rfl⟩ hreturns
      · exact isWithin_apply (isInner_resume hcursor frame) hsuffix

end Calls

/-! ### Runs -/

section Runs

variable {text : List Char} {x : Float} {i j : Nat}

theorem monotone_cursor (text : List Char) (x : Float) :
    Monotone fun n => (config text x n).cursor :=
  monotone_nat_of_le_succ fun n => cursor_le_step (config text x n)

theorem cursor_config_le (text : List Char) (x : Float) (n : Nat) :
    (config text x n).cursor ≤ text.length := by
  induction n with
  | zero => exact Nat.zero_le _
  | succ n ih => exact cursor_step_le ih

theorem control_ne_crashed (text : List Char) (x : Float) (n : Nat) (crash : Crash) :
    (config text x n).control ≠ .ended (.crashed crash) := by
  induction n with
  | zero => simp [config, start]
  | succ n ih =>
    rw [config]
    cases h : act? text x (config text x n) with
    | none => rwa [step_of_ended h]
    | some next =>
      have hsafe := (isSafe_of_act? (cursor_config_le text x n) h).1
      rw [step_of_act? h, Act.apply]
      split
      · simp
      · simp
      · simp
      · next ending hstop =>
        rintro hcrash
        obtain rfl := Control.ended.inj hcrash
        exact hsafe.crash crash hstop

theorem potential_config_le (text : List Char) (x : Float) (n : Nat) :
    (∃ ending, (config text x n).control = .ended ending)
      ∨ (config text x n).potential text + n ≤ 11 * text.length + 12 := by
  induction n with
  | zero =>
    refine Or.inr (le_of_eq ?_)
    rw [config, start, Config.potential]
    simp only [Control.weight, Procedure.weight, totalWeight]
    omega
  | succ n ih =>
    rw [config]
    cases h : act? text x (config text x n) with
    | none =>
      rw [step_of_ended h]
      exact Or.inl (act?_eq_none_iff.mp h)
    | some next =>
      have hlt := potential_step_lt (cursor_config_le text x n) h
      rcases ih with hended | hle
      · rw [act?_eq_none_iff.mpr hended] at h
        cases h
      · exact Or.inr (by omega)

/-- The descent ends, and the number of steps is linear in the length of the text. -/
theorem exists_ended (text : List Char) (x : Float) :
    ∃ ending, (config text x (11 * text.length + 13)).control = .ended ending := by
  rcases potential_config_le text x (11 * text.length + 13) with hended | hle
  · exact hended
  · omega

theorem config_of_ended {ending : Ending} (h : (config text x i).control = .ended ending)
    (hij : i ≤ j) : config text x j = config text x i := by
  induction j, hij using Nat.le_induction with
  | base => rfl
  | succ j hij ih =>
    rw [config, ih]
    exact step_of_ended (act?_eq_none_iff.mpr ⟨ending, h⟩)

theorem isPast_config (h : (config text x i).control = .perform .factor) (hij : i < j) :
    (config text x j).IsPast (config text x i).cursor := by
  induction j, hij using Nat.le_induction with
  | base =>
    have hact : act? text x (config text x i)
        = some ((config text x i).waiting, enter text x (config text x i).cursor .factor) := by
      rw [act?, h]
    rw [config, step_of_act? hact]
    exact isPast_enter_factor
  | succ j hij ih => exact isPast_step ih

theorem isWithin_config {procedure : Procedure} (h : (config text x i).control = .perform procedure)
    (hij : i ≤ j) :
    (config text x j).IsWithin (config text x i).waiting ∨ ∃ k, i ≤ k ∧
      ((config text x k).Returns (config text x i).waiting ∨ (config text x k).Raises) := by
  induction j, hij using Nat.le_induction with
  | base => exact Or.inl ⟨List.suffix_refl _, by simp [h]⟩
  | succ j hij ih =>
    rcases ih with hwithin | hover
    · by_cases hreturns : (config text x j).Returns (config text x i).waiting
      · exact Or.inr ⟨j, hij, Or.inl hreturns⟩
      · rcases isWithin_step (x := x) (cursor_config_le text x j) hwithin hreturns with hwithin | hraises
        · exact Or.inl hwithin
        · exact Or.inr ⟨j + 1, by omega, Or.inr hraises⟩
    · exact Or.inr hover

/-- Every call returns or raises an error. -/
theorem returns_or_raises {procedure : Procedure}
    (h : (config text x i).control = .perform procedure) :
    ∃ k, i ≤ k ∧ ((config text x k).Returns (config text x i).waiting ∨ (config text x k).Raises) := by
  obtain ⟨ending, hended⟩ := exists_ended text x
  rcases isWithin_config h (Nat.le_add_right i (11 * text.length + 13)) with hwithin | hover
  · have hlater := config_of_ended hended (Nat.le_add_left (11 * text.length + 13) i)
    exact absurd (hlater ▸ hended) (hwithin.running ending)
  · exact hover

/-- A call of the procedure for factors is left further right than it was made. -/
theorem cursor_lt_of_returns {waiting : List Waiting} (h : (config text x i).control = .perform .factor)
    (hij : i < j) (hreturns : (config text x j).Returns waiting) :
    (config text x i).cursor < (config text x j).cursor := by
  obtain ⟨-, value, hback⟩ := hreturns
  exact (isPast_config h hij).cursor_lt (by simp [hback]) (by simp [hback])

theorem Control.isFactor_iff {control : Control} :
    control.isFactor = true ↔ control = .perform .factor := by
  unfold Control.isFactor
  split <;> simp_all

theorem cursor_lt_of_factor (hi : (config text x i).control = .perform .factor)
    (hj : (config text x j).control = .perform .factor) (hij : i < j) :
    (config text x i).cursor < (config text x j).cursor :=
  (isPast_config hi hij).cursor_lt (by simp [hj]) (by simp [hj])

/-- The calls of the procedure for factors are at different places of the text, or its end. -/
theorem count_isFactor_le (text : List Char) (x : Float) (n : Nat) :
    Nat.count (fun i => (config text x i).control.isFactor = true) n ≤ text.length + 1 := by
  rw [Nat.count_eq_card_filter_range, ← Finset.card_range (text.length + 1)]
  refine Finset.card_le_card_of_injOn (fun i => (config text x i).cursor) (fun i _ => ?_) ?_
  · exact Finset.mem_coe.mpr (Finset.mem_range.mpr (Nat.lt_succ_of_le (cursor_config_le text x i)))
  · intro i hi j hj hsame
    have hi' := Control.isFactor_iff.mp (Finset.mem_filter.mp hi).2
    have hj' := Control.isFactor_iff.mp (Finset.mem_filter.mp hj).2
    rcases lt_trichotomy i j with hij | rfl | hji
    · exact absurd hsame (cursor_lt_of_factor hi' hj' hij).ne
    · rfl
    · exact absurd hsame (cursor_lt_of_factor hj' hi' hji).ne'

end Runs

/-- What a descent over the text never does wrong, however many steps it has taken. -/
structure IsSafe (text : List Char) (x : Float) : Prop where
  cursor_mono : Monotone fun n => (config text x n).cursor
  cursor_le : ∀ n, (config text x n).cursor ≤ text.length
  access : ∀ n place, .access place ∈ events text x (config text x n) → place < text.length
  divide : ∀ n divisor, .divide divisor ∈ events text x (config text x n) → (divisor == 0) = false
  crash : ∀ n crash, (config text x n).control ≠ .ended (.crashed crash)
  call : ∀ i procedure, (config text x i).control = .perform procedure → ∃ k, i ≤ k ∧
    ((config text x k).Returns (config text x i).waiting ∨ (config text x k).Raises)
  factor : ∀ i j, i < j → (config text x i).control = .perform .factor →
    (config text x j).Returns (config text x i).waiting →
      (config text x i).cursor < (config text x j).cursor
  count : ∀ n, Nat.count (fun i => (config text x i).control.isFactor = true) n ≤ text.length + 1

theorem isSafe_events (text : List Char) (x : Float) (n : Nat) {event : Event}
    (h : event ∈ events text x (config text x n)) :
    (∀ place, event = .access place → place < text.length)
      ∧ ∀ divisor, event = .divide divisor → (divisor == 0) = false := by
  rw [events] at h
  cases hact : act? text x (config text x n) with
  | none =>
    rw [hact] at h
    cases h
  | some next =>
    rw [hact] at h
    have hsafe := (isSafe_of_act? (cursor_config_le text x n) hact).1
    exact ⟨fun place hplace => hsafe.access place (hplace ▸ h),
      fun divisor hdivisor => hsafe.divide divisor (hdivisor ▸ h)⟩

theorem isSafe (text : List Char) (x : Float) : IsSafe text x where
  cursor_mono := monotone_cursor text x
  cursor_le := cursor_config_le text x
  access n place h := (isSafe_events text x n h).1 place rfl
  divide n divisor h := (isSafe_events text x n h).2 divisor rfl
  crash := control_ne_crashed text x
  call _ _ := returns_or_raises
  factor _ _ hij h := cursor_lt_of_returns h hij
  count := count_isFactor_le text x

end FunctionGraph.Formula.Descent
