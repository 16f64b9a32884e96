import FunctionGraph.Proofs.Number.Spelling

/-!
# Reading step by step

The checks that a typed number goes through one after another: which texts have no digits, where the
points are, whether digits stand between them. Converting anything but digits would be refused. These
checks let nothing else through, so reading never fails and gives what the grammar says.
-/

namespace FunctionGraph.Number

/-- A text of something else than digits. It cannot be converted. -/
structure NotDigits where
  text : List Char
  deriving DecidableEq, Repr

/-- Converts digits to the double that `place` makes of their values. No digits are zero. -/
def convert (place : List Nat → Float) (digits : List Char) : Except NotDigits Float :=
  if digits.isEmpty then .ok 0
  else if digits.all Text.isDecimalDigit then .ok (place (values digits))
  else .error ⟨digits⟩

def wholePlace (digits : List Nat) : Float :=
  Float.ofScientific (Numeral.natOfDigits digits) false 0

def fractionPlace (digits : List Nat) : Float :=
  Float.ofScientific (Numeral.natOfDigits digits) true digits.length

/-- The texts of a sign and a point that pass the checks of all parts, but have no digits. -/
def digitless : List (List Char) :=
  [[], ['.'], ['+'], ['-'], ['+', '.'], ['-', '.']]

def isSign (c : Char) : Bool :=
  c == '+' || c == '-'

def isSignedDigits (text : List Char) : Bool :=
  (splitSign text).2.all Text.isDecimalDigit

/-- Reads what stands in front of a point and, if there is one, behind it. -/
def readParts (whole : List Char) (fraction : Option (List Char)) : Except NotDigits Float :=
  if isSignedDigits whole then do
    let magnitude ← convert wholePlace (whole.dropWhile isSign)
    let negative := whole.head? == some '-'
    let signedWhole := if negative then -magnitude else magnitude
    match fraction with
    | none => .ok signedWhole
    | some digits =>
      if digits.all Text.isDecimalDigit then do
        let part ← convert fractionPlace digits
        .ok (if negative then signedWhole - part else signedWhole + part)
      else
        .ok nan
  else
    .ok nan

def readStepwise (text : List Char) : Except NotDigits Float :=
  let trimmed := Text.trim text
  if digitless.contains trimmed then .ok nan
  else
    match trimmed.splitOn '.' with
    | [whole] => readParts whole none
    | [whole, digits] => readParts whole (some digits)
    | _ => .ok nan

section Parts

variable {whole digits text : List Char} {fraction : Option (List Char)} {place : List Nat → Float}

theorem wholePlace_nil : wholePlace [] = 0 :=
  rfl

theorem fractionPlace_nil : fractionPlace [] = 0 := by
  decide +kernel

theorem convert_eq (hplace : place [] = 0) (h : ∀ c ∈ digits, Text.isDecimalDigit c = true) :
    convert place digits = .ok (place (values digits)) := by
  rw [convert]
  split
  · next hempty =>
    rw [List.isEmpty_iff.mp hempty, values, List.filterMap_nil, hplace]
  · rw [if_pos (List.all_eq_true.mpr h)]

theorem not_isSign_of_isDecimalDigit {c : Char} (h : Text.isDecimalDigit c = true) :
    isSign c = false := by
  obtain ⟨hplus, hminus, -⟩ := isDecimalDigit_sign_point
  rw [isSign, Bool.or_eq_false_iff, beq_eq_false_iff_ne, beq_eq_false_iff_ne]
  constructor
  · rintro rfl
    exact Bool.false_ne_true (hplus.symm.trans h)
  · rintro rfl
    exact Bool.false_ne_true (hminus.symm.trans h)

theorem ne_point_of_isDecimalDigit {c : Char} (h : Text.isDecimalDigit c = true) : c ≠ '.' := by
  rintro rfl
  exact Bool.false_ne_true (isDecimalDigit_sign_point.2.2.symm.trans h)

theorem dropWhile_isSign (h : isSignedDigits text = true) :
    text.dropWhile isSign = (splitSign text).2 := by
  have hkeep : ∀ rest : List Char, rest.all Text.isDecimalDigit = true →
      rest.dropWhile isSign = rest := by
    intro rest hrest
    cases rest with
    | nil => rfl
    | cons c rest =>
      have hdigit := List.all_eq_true.mp hrest c List.mem_cons_self
      have hsign := not_isSign_of_isDecimalDigit hdigit
      rw [List.dropWhile_cons_of_neg (by rw [hsign]; exact Bool.false_ne_true)]
  rw [isSignedDigits] at h
  conv_rhs => rw [← hkeep _ h]
  unfold splitSign
  split <;> rfl

theorem convert_whole (h : isSignedDigits whole = true) :
    convert wholePlace (whole.dropWhile isSign) = .ok (wholePlace (values (splitSign whole).2)) := by
  rw [dropWhile_isSign h]
  exact convert_eq wholePlace_nil (List.all_eq_true.mp h)

theorem readParts_none (h : isSignedDigits whole = true) :
    readParts whole none = .ok (if whole.head? == some '-' then -wholePlace (values (splitSign whole).2)
      else wholePlace (values (splitSign whole).2)) := by
  rw [readParts, if_pos h, convert_whole h]
  rfl

theorem readParts_some (h : isSignedDigits whole = true)
    (hdigits : ∀ c ∈ digits, Text.isDecimalDigit c = true) :
    readParts whole (some digits) = .ok (if whole.head? == some '-' then
        -wholePlace (values (splitSign whole).2) - fractionPlace (values digits)
      else wholePlace (values (splitSign whole).2) + fractionPlace (values digits)) := by
  have hconvert := convert_eq fractionPlace_nil hdigits
  rw [readParts, if_pos h, convert_whole h]
  simp only [bind, Except.bind]
  rw [if_pos (List.all_eq_true.mpr hdigits), hconvert]
  -- The terms are the same in both cases, and sums of doubles need not be unfolded to see it.
  cases whole.head? == some '-' <;> simp only [Bool.false_eq_true, if_true, if_false]

/-- A part that is not of digits is noticed before it is converted. -/
theorem readParts_of_not_digits
    (h : ¬(isSignedDigits whole = true ∧ ∀ digits ∈ fraction, digits.all Text.isDecimalDigit = true)) :
    readParts whole fraction = .ok nan := by
  by_cases hwhole : isSignedDigits whole = true
  · cases fraction with
    | none => exact absurd ⟨hwhole, fun _ hnone => by cases hnone⟩ h
    | some digits =>
      have hdigits : ¬digits.all Text.isDecimalDigit = true := fun hall =>
        h ⟨hwhole, fun _ hsome => Option.some.inj hsome ▸ hall⟩
      rw [readParts, if_pos hwhole, convert_whole hwhole]
      simp only [bind, Except.bind]
      rw [if_neg hdigits]
  · rw [readParts, if_neg hwhole]

end Parts

section Spelled

variable {text whole : List Char} {fraction : Option (List Char)} {s : Spelling}

/-- The parts of a numeral as the points divide it. -/
theorem text_eq_intercalate (s : Spelling) :
    s.text = ['.'].intercalate ((s.sign ++ s.whole) :: s.fraction.toList) := by
  obtain ⟨sign, whole, fraction⟩ := s
  cases fraction <;> simp [Spelling.text, List.intercalate]

theorem splitOn_text (h : s.IsNumeral) :
    s.text.splitOn '.' = (s.sign ++ s.whole) :: s.fraction.toList := by
  rw [text_eq_intercalate]
  refine List.splitOn_intercalate '.' (fun part hpart hpoint => ?_) (List.cons_ne_nil _ _)
  rcases List.mem_cons.mp hpart with rfl | hfraction
  · rcases List.mem_append.mp hpoint with hsign | hwhole
    · have hsigns : ∀ sign ∈ [[], ['+'], ['-']], '.' ∉ sign := by decide
      exact hsigns s.sign h.sign hsign
    · exact ne_point_of_isDecimalDigit (h.whole _ hwhole) rfl
  · have hbehind : s.behind = part := by
      rw [Spelling.behind, Option.mem_toList.mp hfraction, Option.getD_some]
    exact ne_point_of_isDecimalDigit (h.behind _ (hbehind ▸ hpoint)) rfl

theorem not_mem_digitless (h : s.IsNumeral) : s.text ∉ digitless := by
  intro hmem
  have hnone : ∀ text ∈ digitless, ∀ c ∈ text, isSign c = true ∨ c = '.' := by
    simp [digitless, isSign]
  have hall : ∀ c ∈ s.whole ++ s.behind, c ∈ s.text ∧ Text.isDecimalDigit c = true := by
    obtain ⟨sign, whole, fraction⟩ := s
    intro c hc
    rcases List.mem_append.mp hc with hwhole | hbehind
    · exact ⟨by cases fraction <;> simp [Spelling.text, hwhole], h.whole c hwhole⟩
    · cases fraction with
      | none => exact absurd hbehind List.not_mem_nil
      | some digits => exact ⟨by simp [Spelling.text, show c ∈ digits from hbehind], h.behind c hbehind⟩
  have hne : s.whole ++ s.behind ≠ [] := by
    rw [Ne, List.append_eq_nil_iff, not_and_or]
    exact h.nonempty
  obtain ⟨c, hc⟩ := List.exists_mem_of_ne_nil _ hne
  obtain ⟨hin, hdigit⟩ := hall c hc
  rcases hnone _ hmem c hin with hsign | hpoint
  · exact Bool.false_ne_true ((not_isSign_of_isDecimalDigit hdigit).symm.trans hsign)
  · exact ne_point_of_isDecimalDigit hdigit hpoint

theorem splitSign_sign_whole (h : s.IsNumeral) :
    splitSign (s.sign ++ s.whole) = (decide (s.sign = ['-']), s.whole) :=
  h.splitSign_append fun c hc => Or.inl (h.whole c (List.mem_of_mem_head? hc))

theorem head?_beq_minus (h : s.IsNumeral) :
    ((s.sign ++ s.whole).head? == some '-') = decide (s.sign = ['-']) := by
  have hsign := h.sign
  simp only [List.mem_cons, List.not_mem_nil, or_false] at hsign
  rcases hsign with hsign | hsign | hsign <;> rw [hsign]
  · have hhead : s.whole.head? ≠ some '-' := by
      intro hhead
      have hdigit := h.whole _ (List.mem_of_mem_head? hhead)
      exact Bool.false_ne_true (isDecimalDigit_sign_point.2.1.symm.trans hdigit)
    simpa using hhead
  · rfl
  · rfl

/-- The whole part alone is the number, when there is no point to add a fraction. -/
theorem value_of_fraction_none (h : s.fraction = none) :
    s.numeral.value
      = if s.sign = ['-'] then -wholePlace (values s.whole) else wholePlace (values s.whole) := by
  have hsign := hasSign_ofScientific (Numeral.natOfDigits (values s.whole)) false 0
  have hfraction : s.numeral.fractionValue = 0 := by
    have hnil : values s.behind = [] := by
      rw [Spelling.behind, h]
      rfl
    rw [← fractionPlace_nil, ← hnil]
    rfl
  have hzero : (0 : Float).toModel.unpack = .zero .positive := rfl
  rw [Numeral.value, hfraction]
  refine if_congr decide_eq_true_iff ?_ ?_
  · exact hsign.neg.sub_zero hzero
  · exact hsign.add_zero hzero

theorem readParts_of_isNumeral (h : s.IsNumeral) :
    readParts (s.sign ++ s.whole) s.fraction = .ok s.numeral.value := by
  have hdigits : isSignedDigits (s.sign ++ s.whole) = true := by
    rw [isSignedDigits, splitSign_sign_whole h]
    exact List.all_eq_true.mpr h.whole
  cases hfraction : s.fraction with
  | none =>
    rw [readParts_none hdigits, head?_beq_minus h, splitSign_sign_whole h,
      value_of_fraction_none hfraction]
    simp only [decide_eq_true_eq]
  | some digits =>
    have hbehind : s.behind = digits := by rw [Spelling.behind, hfraction, Option.getD_some]
    rw [readParts_some hdigits (hbehind ▸ h.behind), head?_beq_minus h, splitSign_sign_whole h,
      ← hbehind]
    rfl

/-- The parts of a text of signed digits and a point spell a numeral, unless the text has no digit. -/
theorem exists_isNumeral_of_parts (hwhole : isSignedDigits whole = true)
    (hfraction : ∀ digits ∈ fraction, digits.all Text.isDecimalDigit = true)
    (htext : text = ['.'].intercalate (whole :: fraction.toList)) (hdigits : text ∉ digitless) :
    ∃ s : Spelling, s.IsNumeral ∧ s.text = text := by
  obtain ⟨sign, hsign, hsplit⟩ := exists_sign whole
  have hspells : (Spelling.mk sign (splitSign whole).2 fraction).text = text := by
    rw [text_eq_intercalate, htext, ← hsplit]
  refine ⟨⟨sign, (splitSign whole).2, fraction⟩,
    ⟨hsign, List.all_eq_true.mp hwhole, fun c hc => ?_, ?_⟩, hspells⟩
  · cases fraction with
    | none => exact absurd hc List.not_mem_nil
    | some digits => exact List.all_eq_true.mp (hfraction digits rfl) c hc
  · by_contra hnone
    rw [not_or, not_not, not_not] at hnone
    obtain ⟨hwholenil, hbehindnil⟩ := hnone
    have hsigns : ∀ sign ∈ [[], ['+'], ['-']], sign ∈ digitless ∧ sign ++ ['.'] ∈ digitless := by decide
    refine hdigits (hspells ▸ ?_)
    simp only at hwholenil
    cases fraction with
    | none =>
      rw [Spelling.text_none, hwholenil, List.append_nil]
      exact (hsigns sign hsign).1
    | some digits =>
      obtain rfl : digits = [] := hbehindnil
      rw [Spelling.text_some, hwholenil]
      exact (hsigns sign hsign).2

/-- **Reading never fails**, and the steps of the program come to what the grammar says. -/
theorem readStepwise_eq (text : List Char) : readStepwise text = .ok (read text) := by
  by_cases hspelled : ∃ s : Spelling, s.IsNumeral ∧ s.text = Text.trim text
  · obtain ⟨s, hs, htext⟩ := hspelled
    have hdigits : ¬digitless.contains s.text = true := by
      rw [List.contains_iff_mem]
      exact not_mem_digitless hs
    rw [read_of_isNumeral hs htext, readStepwise, ← readParts_of_isNumeral hs, ← htext, splitOn_text hs,
      if_neg hdigits]
    cases s.fraction <;> rfl
  · rw [read_of_not_exists hspelled, readStepwise]
    split
    · rfl
    · next hdigits =>
      rw [List.contains_iff_mem] at hdigits
      have hparts : ['.'].intercalate ((Text.trim text).splitOn '.') = Text.trim text :=
        List.intercalate_splitOn '.'
      have hnan : ∀ whole fraction, (Text.trim text).splitOn '.' = whole :: Option.toList fraction →
          readParts whole fraction = .ok nan := by
        intro whole fraction hsplit
        refine readParts_of_not_digits fun h => hspelled ?_
        exact exists_isNumeral_of_parts h.1 h.2 (hsplit ▸ hparts).symm hdigits
      split
      · next whole hsplit => exact hnan whole none hsplit
      · next whole digits hsplit => exact hnan whole (some digits) hsplit
      · rfl

end Spelled

end FunctionGraph.Number
