import FunctionGraph.Number.Reading
import FunctionGraph.Number.Written
import Mathlib.Data.List.Induction
import Mathlib.Algebra.Ring.Nat

/-!
# Digits in texts

Numbers are written with the ten digits of ASCII only, so what is written is read digit by digit, and
the layout of a number is a statement on lists of digits.
-/

namespace FunctionGraph.Number

open Float.Model.UnpackedFloat (Sign)

def IsDigits (text : List Char) : Prop :=
  ∀ c ∈ text, c.isDigit = true

def values (digits : List Char) : List Nat :=
  digits.filterMap Text.digitValue?

section Digits

variable {c : Char} {digits text whole fraction : List Char}

theorem digitValue?_of_isDigit (h : c.isDigit = true) :
    Text.digitValue? c = some (c.toNat - 48) := by
  have hrange : 48 ≤ c.toNat ∧ c.toNat < 58 := by
    simp only [Char.isDigit, Bool.and_eq_true, decide_eq_true_eq] at h
    exact ⟨h.1, Nat.lt_succ_of_le h.2⟩
  rw [Text.digitValue?, Text.decimalZeros, List.find?_cons_of_pos]
  · rfl
  · simpa using hrange

theorem isDecimalDigit_of_isDigit (h : c.isDigit = true) : Text.isDecimalDigit c = true := by
  rw [Text.isDecimalDigit, digitValue?_of_isDigit h]
  rfl

theorem isBlank_of_isDigit (h : c.isDigit = true) : Text.isBlank c = false := by
  have hrange : 48 ≤ c.toNat ∧ c.toNat < 58 := by
    simp only [Char.isDigit, Bool.and_eq_true, decide_eq_true_eq] at h
    exact ⟨h.1, Nat.lt_succ_of_le h.2⟩
  rw [← Bool.not_eq_true, Text.isBlank, Text.inRanges_iff]
  simp [Text.blankRanges]
  omega

theorem IsDigits.append (h₁ : IsDigits whole) (h₂ : IsDigits fraction) :
    IsDigits (whole ++ fraction) := by
  intro c hc
  exact (List.mem_append.mp hc).elim (h₁ c) (h₂ c)

theorem isDigits_replicate (n : Nat) : IsDigits (List.replicate n '0') := by
  intro c hc
  rw [List.eq_of_mem_replicate hc]
  rfl

theorem isDigits_toDigits (n : Nat) : IsDigits (decimalDigits n) := fun _ =>
  Nat.isDigit_of_mem_toDigits (by decide) (by decide)

theorem values_cons (hc : c.isDigit = true) (digits : List Char) :
    values (c :: digits) = (c.toNat - 48) :: values digits := by
  rw [values, List.filterMap_cons, digitValue?_of_isDigit hc]
  rfl

theorem length_values (h : IsDigits digits) : (values digits).length = digits.length := by
  induction digits with
  | nil => rfl
  | cons c digits ih =>
    rw [values_cons (h c List.mem_cons_self), List.length_cons, List.length_cons,
      ih fun d hd => h d (List.mem_cons_of_mem _ hd)]

theorem natOfDigits_values (h : IsDigits digits) :
    Numeral.natOfDigits (values digits) = Nat.ofDigitChars 10 digits 0 := by
  have hfold : ∀ (digits : List Char) (start : Nat), IsDigits digits →
      (values digits).foldl (fun value digit => 10 * value + digit) start
        = Nat.ofDigitChars 10 digits start := by
    intro digits
    induction digits with
    | nil => exact fun _ _ => rfl
    | cons c digits ih =>
      intro start h
      rw [values_cons (h c List.mem_cons_self), List.foldl_cons, Nat.ofDigitChars_cons,
        ih _ fun d hd => h d (List.mem_cons_of_mem _ hd)]
      rfl
  exact hfold digits 0 h

theorem ofDigitChars_lt (h : IsDigits digits) : Nat.ofDigitChars 10 digits 0 < 10 ^ digits.length := by
  induction digits using List.reverseRecOn with
  | nil => decide
  | append_singleton digits c ih =>
    have hc := h c (List.mem_append_right _ List.mem_cons_self)
    have hrest := ih fun d hd => h d (List.mem_append_left _ hd)
    simp only [Char.isDigit, Bool.and_eq_true, decide_eq_true_eq] at hc
    have hvalue : c.toNat - '0'.toNat ≤ 9 := by
      have : c.toNat ≤ 57 := hc.2
      have : '0'.toNat = 48 := rfl
      omega
    rw [Nat.ofDigitChars_append, Nat.ofDigitChars_cons, Nat.ofDigitChars_nil, List.length_append,
      List.length_singleton, Nat.pow_succ]
    omega

/-! ### Reading -/

theorem trim_eq (h : ∀ c ∈ text, Text.isBlank c = false) : Text.trim text = text := by
  have hkeep : ∀ text : List Char, (∀ c ∈ text, Text.isBlank c = false) →
      text.dropWhile Text.isBlank = text := by
    intro text h
    cases text with
    | nil => rfl
    | cons c text => rw [List.dropWhile_cons_of_neg (by rw [h c List.mem_cons_self]; simp)]
  rw [Text.trim, Text.trimStart, Text.trimEnd, hkeep text h,
    hkeep text.reverse fun c hc => h c (List.mem_reverse.mp hc), List.reverse_reverse]

def isNegative : Sign → Bool
  | .negative => true
  | .positive => false

theorem splitSign_writeSign (sign : Sign) (h : IsDigits whole) (hne : whole ≠ []) (rest : List Char) :
    splitSign (writeSign sign ++ (whole ++ rest)) = (isNegative sign, whole ++ rest) := by
  obtain ⟨c, digits, rfl⟩ := List.exists_cons_of_ne_nil hne
  have hc := h c List.mem_cons_self
  cases sign with
  | negative => rfl
  | positive =>
    unfold splitSign
    split
    · next heq =>
      obtain ⟨rfl, -⟩ := List.cons.inj heq
      cases hc
    · next heq =>
      obtain ⟨rfl, -⟩ := List.cons.inj heq
      cases hc
    · rfl

/-- The digits in front of anything else are found as they are. -/
theorem takeWhile_dropWhile_digits (h : IsDigits whole)
    (hrest : text.takeWhile Text.isDecimalDigit = []) :
    (whole ++ text).takeWhile Text.isDecimalDigit = whole
      ∧ (whole ++ text).dropWhile Text.isDecimalDigit = text := by
  have hdigits := fun c hc => isDecimalDigit_of_isDigit (h c hc)
  have hkept : text.dropWhile Text.isDecimalDigit = text := by
    have := List.takeWhile_append_dropWhile (p := Text.isDecimalDigit) (l := text)
    rwa [hrest, List.nil_append] at this
  rw [List.takeWhile_append_of_pos hdigits, List.dropWhile_append_of_pos hdigits, hrest, hkept,
    List.append_nil]
  exact ⟨rfl, rfl⟩

theorem takeWhile_nil : ([] : List Char).takeWhile Text.isDecimalDigit = [] :=
  rfl

theorem takeWhile_exponent (rest : List Char) :
    ('e' :: rest).takeWhile Text.isDecimalDigit = [] :=
  rfl

theorem takeWhile_point (rest : List Char) : ('.' :: rest).takeWhile Text.isDecimalDigit = [] :=
  rfl

theorem readNumeral_whole (sign : Sign) (h : IsDigits whole) (hne : whole ≠ []) :
    readNumeral (writeSign sign ++ whole) = some ⟨isNegative sign, values whole, []⟩ := by
  have hsplit := splitSign_writeSign sign h hne []
  obtain ⟨htake, hdrop⟩ := takeWhile_dropWhile_digits h takeWhile_nil
  rw [List.append_nil] at hsplit htake hdrop
  rw [readNumeral, hsplit]
  simp only [htake, hdrop]
  rw [if_neg (by rwa [List.isEmpty_iff])]
  rfl

theorem readNumeral_point (sign : Sign) (h : IsDigits whole) (hne : whole ≠ [])
    (hfraction : IsDigits fraction) :
    readNumeral (writeSign sign ++ (whole ++ '.' :: fraction))
      = some ⟨isNegative sign, values whole, values fraction⟩ := by
  have hall : fraction.all Text.isDecimalDigit = true :=
    List.all_eq_true.mpr fun c hc => isDecimalDigit_of_isDigit (hfraction c hc)
  have hwhole : whole.isEmpty = false := by rwa [← Bool.not_eq_true, List.isEmpty_iff]
  obtain ⟨htake, hdrop⟩ := takeWhile_dropWhile_digits h (takeWhile_point fraction)
  rw [readNumeral, splitSign_writeSign sign h hne]
  simp only [htake, hdrop, hall, hwhole]
  rfl

/-- An exponent is not read. -/
theorem readNumeral_exponent (sign : Sign) (h : IsDigits whole) (hne : whole ≠ [])
    (rest : List Char) : readNumeral (writeSign sign ++ (whole ++ 'e' :: rest)) = none := by
  obtain ⟨htake, hdrop⟩ := takeWhile_dropWhile_digits h (takeWhile_exponent rest)
  rw [readNumeral, splitSign_writeSign sign h hne]
  simp only [htake, hdrop]
  rfl

theorem readNumeral_point_exponent (sign : Sign) (h : IsDigits whole) (hne : whole ≠ [])
    (fraction rest : List Char) :
    readNumeral (writeSign sign ++ (whole ++ '.' :: (fraction ++ 'e' :: rest))) = none := by
  have hnone : (fraction ++ 'e' :: rest).all Text.isDecimalDigit = false := by
    have : Text.isDecimalDigit 'e' = false := by decide
    rw [List.all_append, List.all_cons, this, Bool.false_and, Bool.and_false]
  obtain ⟨htake, hdrop⟩ := takeWhile_dropWhile_digits h (takeWhile_point (fraction ++ 'e' :: rest))
  rw [readNumeral, splitSign_writeSign sign h hne]
  simp only [htake, hdrop, hnone]
  rfl

end Digits

end FunctionGraph.Number
