import FunctionGraph.Proofs.Number.DigitText
import FunctionGraph.Proofs.Number.Unsigned

/-!
# The grammar of typed numbers

A number is spelled with at most one sign, digits of any script, and at most one point among them.
These spellings are what is read as a number: the digits in front of the point and behind it are
converted each to the nearest double, and both parts take the sign.
-/

namespace FunctionGraph.Number

/-- How a number may be written: a sign, the digits of the whole part, and those behind a point. -/
structure Spelling where
  sign : List Char
  whole : List Char
  fraction : Option (List Char)

/-- The number that digits of any script write. -/
def numberOf (digits : List Char) : ℕ :=
  Nat.ofDigits 10 (digits.reverse.map fun c => (Text.digitValue? c).getD 0)

namespace Spelling

def behind (s : Spelling) : List Char :=
  s.fraction.getD []

def text (s : Spelling) : List Char :=
  s.sign ++ match s.fraction with
    | none => s.whole
    | some digits => s.whole ++ '.' :: digits

structure IsNumeral (s : Spelling) : Prop where
  sign : s.sign ∈ [[], ['+'], ['-']]
  whole : ∀ c ∈ s.whole, Text.isDecimalDigit c = true
  behind : ∀ c ∈ s.behind, Text.isDecimalDigit c = true
  nonempty : s.whole ≠ [] ∨ s.behind ≠ []

def numeral (s : Spelling) : Numeral :=
  ⟨s.sign = ['-'], values s.whole, values s.behind⟩

/-- The number that is read: two conversions and one sum. -/
def Gives (s : Spelling) (x : Float) : Prop :=
  ∃ whole fraction, IsConversion (numberOf s.whole) whole ∧
    IsConversion (numberOf s.behind / 10 ^ s.behind.length) fraction ∧
      x = if s.sign = ['-'] then -whole - fraction else whole + fraction

end Spelling

/-! ### Digits of any script -/

section Digits

variable {digits : List Char}

theorem isDecimalDigit_sign_point :
    Text.isDecimalDigit '+' = false ∧ Text.isDecimalDigit '-' = false
      ∧ Text.isDecimalDigit '.' = false := by
  decide

theorem values_eq_map (h : ∀ c ∈ digits, Text.isDecimalDigit c = true) :
    values digits = digits.map fun c => (Text.digitValue? c).getD 0 := by
  induction digits with
  | nil => rfl
  | cons c digits ih =>
    obtain ⟨value, hvalue⟩ := Option.isSome_iff_exists.mp (h c List.mem_cons_self)
    rw [values, List.filterMap_cons_some hvalue, List.map_cons, hvalue, Option.getD_some,
      ← ih fun d hd => h d (List.mem_cons_of_mem c hd), values]

theorem natOfDigits_values_eq (h : ∀ c ∈ digits, Text.isDecimalDigit c = true) :
    Numeral.natOfDigits (values digits) = numberOf digits := by
  rw [values_eq_map h, numberOf, List.map_reverse, Nat.ofDigits_eq_foldr, List.foldr_reverse,
    Numeral.natOfDigits]
  simp only [Nat.cast_id, Nat.add_comm]

theorem takeWhile_digits_append (h : ∀ c ∈ digits, Text.isDecimalDigit c = true) (rest : List Char) :
    (digits ++ '.' :: rest).takeWhile Text.isDecimalDigit = digits ∧
      (digits ++ '.' :: rest).dropWhile Text.isDecimalDigit = '.' :: rest := by
  rw [List.takeWhile_append_of_pos h, List.dropWhile_append_of_pos h]
  exact ⟨by rw [takeWhile_point, List.append_nil], rfl⟩

theorem takeWhile_digits (h : ∀ c ∈ digits, Text.isDecimalDigit c = true) :
    digits.takeWhile Text.isDecimalDigit = digits ∧ digits.dropWhile Text.isDecimalDigit = [] :=
  ⟨List.takeWhile_eq_self_iff.mpr h, List.dropWhile_eq_nil_iff.mpr h⟩

/-- Splitting off a sign takes one of the three signs of a numeral. -/
theorem exists_sign (text : List Char) :
    ∃ sign ∈ [[], ['+'], ['-']], text = sign ++ (splitSign text).2 := by
  unfold splitSign
  split
  · exact ⟨['-'], by decide, rfl⟩
  · exact ⟨['+'], by decide, rfl⟩
  · exact ⟨[], by decide, rfl⟩

end Digits

namespace Spelling

section Numerals

variable {s : Spelling} {text sign whole digits : List Char}

theorem text_none : (Spelling.mk sign whole none).text = sign ++ whole :=
  rfl

theorem text_some : (Spelling.mk sign whole (some digits)).text = sign ++ (whole ++ '.' :: digits) :=
  rfl

/-- What stands behind the sign of a numeral does not begin with another sign. -/
theorem IsNumeral.splitSign_append {rest : List Char} (h : s.IsNumeral)
    (hrest : ∀ c ∈ rest.head?, Text.isDecimalDigit c = true ∨ c = '.') :
    splitSign (s.sign ++ rest) = (decide (s.sign = ['-']), rest) := by
  have hsign := h.sign
  simp only [List.mem_cons, List.not_mem_nil, or_false] at hsign
  rcases hsign with hsign | hsign | hsign <;> rw [hsign]
  · unfold splitSign
    split
    · next tail heq =>
      obtain rfl : rest = '-' :: tail := heq
      exact absurd (hrest '-' rfl) (by decide)
    · next tail heq =>
      obtain rfl : rest = '+' :: tail := heq
      exact absurd (hrest '+' rfl) (by decide)
    · rfl
  · rfl
  · rfl

theorem IsNumeral.readNumeral_text (h : s.IsNumeral) : readNumeral s.text = some s.numeral := by
  obtain ⟨sign, whole, fraction⟩ := s
  cases fraction with
  | none =>
    have hne : whole ≠ [] := h.nonempty.resolve_right fun hbehind => hbehind rfl
    obtain ⟨htake, hdrop⟩ := takeWhile_digits h.whole
    have hhead : ∀ c ∈ whole.head?, Text.isDecimalDigit c = true ∨ c = '.' := fun c hc =>
      Or.inl (h.whole c (List.mem_of_mem_head? hc))
    rw [text_none, readNumeral, h.splitSign_append hhead]
    simp only [htake, hdrop]
    rw [if_neg (by rwa [List.isEmpty_iff])]
    rfl
  | some digits =>
    have hall : digits.all Text.isDecimalDigit = true := List.all_eq_true.mpr h.behind
    obtain ⟨htake, hdrop⟩ := takeWhile_digits_append h.whole digits
    have hhead : ∀ c ∈ (whole ++ '.' :: digits).head?, Text.isDecimalDigit c = true ∨ c = '.' := by
      intro c hc
      cases whole with
      | nil => exact Or.inr (Option.some.inj hc).symm
      | cons d whole => exact Or.inl (Option.some.inj hc ▸ h.whole d List.mem_cons_self)
    have hne : (whole.isEmpty && digits.isEmpty) = false := by
      rw [Bool.and_eq_false_iff, List.isEmpty_eq_false_iff, List.isEmpty_eq_false_iff]
      exact h.nonempty
    rw [text_some, readNumeral, h.splitSign_append hhead]
    simp only [htake, hdrop, hall, hne]
    rfl

theorem exists_isNumeral_of_readNumeral {n : Numeral} (h : readNumeral text = some n) :
    ∃ s : Spelling, s.IsNumeral ∧ s.text = text := by
  obtain ⟨sign, hsign, htext⟩ := exists_sign text
  have hunsigned := List.takeWhile_append_dropWhile (p := Text.isDecimalDigit) (l := (splitSign text).2)
  have hwhole : ∀ c ∈ (splitSign text).2.takeWhile Text.isDecimalDigit,
      Text.isDecimalDigit c = true := fun c hc => List.mem_takeWhile_imp hc
  rw [readNumeral] at h
  simp only at h
  split at h
  · next hdrop =>
    rw [hdrop, List.append_nil] at hunsigned
    have hne : (splitSign text).2.takeWhile Text.isDecimalDigit ≠ [] := by
      intro hnil
      rw [hnil] at h
      cases h
    refine ⟨⟨sign, _, none⟩, ⟨hsign, hwhole, fun c hc => absurd hc List.not_mem_nil, Or.inl hne⟩, ?_⟩
    rw [text_none, hunsigned, ← htext]
  · next fraction hdrop =>
    rw [hdrop] at hunsigned
    rw [Option.ite_none_right_eq_some, Bool.and_eq_true, List.all_eq_true] at h
    obtain ⟨⟨hfraction, hne⟩, -⟩ := h
    refine ⟨⟨sign, _, some fraction⟩, ⟨hsign, hwhole, hfraction, ?_⟩, ?_⟩
    · rwa [Bool.not_eq_true', Bool.and_eq_false_iff, List.isEmpty_eq_false_iff,
        List.isEmpty_eq_false_iff] at hne
    · rw [text_some, hunsigned, ← htext]
  · cases h

theorem IsNumeral.gives_value (h : s.IsNumeral) : s.Gives s.numeral.value := by
  have hwhole := isConversion_whole (numberOf s.whole)
  have hfraction := isConversion_fraction (numberOf s.behind) s.behind.length
  have hlength : (values s.behind).length = s.behind.length := by
    rw [values_eq_map h.behind, List.length_map]
  have hvalue : s.numeral.wholeValue = Float.ofScientific (numberOf s.whole) false 0 := by
    rw [← natOfDigits_values_eq h.whole]
    rfl
  have hpart : s.numeral.fractionValue
      = Float.ofScientific (numberOf s.behind) true s.behind.length := by
    rw [← natOfDigits_values_eq h.behind, ← hlength]
    rfl
  refine ⟨_, _, hwhole, hfraction, ?_⟩
  rw [Numeral.value, hvalue, hpart]
  exact if_congr decide_eq_true_iff rfl rfl

/-- Parts without a minus sign can be added, and both be subtracted. -/
theorem Gives.isNaN_eq_false {x : Float} (h : s.Gives x) : x.isNaN = false := by
  obtain ⟨whole, fraction, hwhole, hfraction, rfl⟩ := h
  split
  · exact (hwhole.sign.neg.sub hfraction.sign).isNaN_eq_false
  · exact (hwhole.sign.add hfraction.sign).isNaN_eq_false

end Numerals

end Spelling

/-- A text is read as a number just where it spells one between blanks, and as the number it spells. -/
structure IsReading (text : List Char) (x : Float) : Prop where
  isNaN_iff : x.isNaN = false ↔ ∃ s : Spelling, s.IsNumeral ∧ s.text = Text.trim text
  gives : ∀ s : Spelling, s.IsNumeral → s.text = Text.trim text → s.Gives x

section Reading

variable {text : List Char} {s : Spelling}

theorem read_of_isNumeral (h : s.IsNumeral) (htext : s.text = Text.trim text) :
    read text = s.numeral.value := by
  rw [read, ← htext, h.readNumeral_text]

theorem read_of_not_exists (h : ¬∃ s : Spelling, s.IsNumeral ∧ s.text = Text.trim text) :
    read text = nan := by
  rw [read]
  split
  · next hread => exact absurd (Spelling.exists_isNumeral_of_readNumeral hread) h
  · rfl

theorem isReading_read (text : List Char) : IsReading text (read text) where
  isNaN_iff := by
    constructor
    · intro hnumber
      by_contra hnone
      rw [read_of_not_exists hnone, isNaN_nan] at hnumber
      cases hnumber
    · rintro ⟨s, hs, htext⟩
      rw [read_of_isNumeral hs htext]
      exact hs.gives_value.isNaN_eq_false
  gives s hs htext := by
    rw [read_of_isNumeral hs htext]
    exact hs.gives_value

end Reading

end FunctionGraph.Number
