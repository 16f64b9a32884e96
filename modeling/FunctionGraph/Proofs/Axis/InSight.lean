import FunctionGraph.Proofs.Axis.Placement
import FunctionGraph.Proofs.Number.Conversion
import FunctionGraph.Proofs.Number.Reach

/-!
# Points in sight

Every operation on the way from a point to its place is rounded. Rounding keeps the order, and the far
edge of the frame is a whole number of pixels, so what is not past the end of an axis is not carried past
that edge. What is past the end by more than a hair of the axis is not carried back either: what the
roundings take away is far smaller than the hair.
-/

namespace FunctionGraph

namespace Number

open Float.Model.UnpackedFloat (Sign)

/-- A number that is larger by some slack is not rounded below the bound. -/
theorem le_toDouble_of_slack {a q : ℚ} (ha : 0 ≤ a) (h : a + q / 2 ^ 53 + 1 / 2 ^ 60 ≤ q) :
    a ≤ toDouble q := by
  have hround := (abs_le.mp (abs_toDouble_sub_le_part q)).1
  have htiny : (2 : ℚ) ^ (-1075 : ℤ) ≤ 1 / 2 ^ 60 := by
    calc (2 : ℚ) ^ (-1075 : ℤ) ≤ 2 ^ (-60 : ℤ) := two_zpow_le (by norm_num)
      _ = 1 / 2 ^ 60 := by norm_num
  rw [abs_of_nonneg (by linarith)] at hround
  linarith

/-- Distances on an axis that are no more than this are not told apart for sure. -/
def hair (p q : ℚ) : ℚ :=
  (q - p) / 2 ^ 40

/-! ### The part of an axis in front of a number -/

section ExactPart

variable {p q r : ℚ} (hp : IsDouble p) (hq : IsDouble q) (hr : IsDouble r) (hpq : p < q)

include hp hq hr hpq

/-- The part in front of a number past the far end is more than the whole axis. -/
theorem le_toDouble_part (h : q + hair p q < r) :
    1 + 1 / 2 ^ 41 ≤ toDouble (toDouble (r - p) / toDouble (q - p)) := by
  have hspan := (abs_le.mp (abs_toDouble_sub_sub_le hp hq)).2
  have hdistance := (abs_le.mp (abs_toDouble_sub_sub_le hp hr)).1
  have hwidth : 0 < q - p := sub_pos.mpr hpq
  have hpast : (q - p) + (q - p) / 2 ^ 40 < r - p := by
    rw [hair] at h
    linarith
  have hdouble : IsDouble (1 + 1 / 2 ^ 41) := ⟨2 ^ 41 + 1, -41, by norm_num, by norm_num, by norm_num⟩
  rw [abs_of_pos hwidth] at hspan
  rw [abs_of_pos (by linarith)] at hdistance
  refine le_toDouble hdouble ((le_div_iff₀ (toDouble_sub_pos hp hq hpq)).mpr ?_)
  linarith

/-- The part in front of a number before the near end is less than none. -/
theorem toDouble_part_le (h : r < p - hair p q) :
    toDouble (toDouble (r - p) / toDouble (q - p)) ≤ -(1 / 2 ^ 41) := by
  have hspan := (abs_le.mp (abs_toDouble_sub_sub_le hp hq)).2
  have hdistance := (abs_le.mp (abs_toDouble_sub_sub_le hp hr)).2
  have hwidth : 0 < q - p := sub_pos.mpr hpq
  have hpast : r - p < -((q - p) / 2 ^ 40) := by
    rw [hair] at h
    linarith
  have hdouble : IsDouble (1 / 2 ^ 41) := ⟨1, -41, by norm_num, by norm_num, by norm_num⟩
  rw [abs_of_pos hwidth] at hspan
  rw [abs_of_neg (by linarith)] at hdistance
  refine toDouble_le hdouble.neg ((div_le_iff₀ (toDouble_sub_pos hp hq hpq)).mpr ?_)
  linarith

end ExactPart

section Part

variable {lo hi x : Float} {p q r distance part : ℚ} {s : Sign}
variable (hlo : rational? lo = some p) (hhi : rational? hi = some q) (hx : rational? x = some r)
variable (hpq : p < q) (hspan : (hi - lo).isFinite = true)

include hlo hhi hx hpq hspan

theorem reaches_part (hdistance : signed s distance ≤ signed s (toDouble (r - p)))
    (hlow : -2 ^ (1024 : ℤ) < signed s distance)
    (hpart : signed s part ≤ signed s (toDouble (distance / toDouble (q - p))))
    (hlow' : -2 ^ (1024 : ℤ) < signed s part) : Reaches s part ((x - lo) / (hi - lo)) := by
  have hvalue := rational?_sub_of_isFinite hhi hlo hspan
  have hpos := toDouble_sub_pos (isDouble_of_rational? hlo) (isDouble_of_rational? hhi) hpq
  exact ((isRounding_sub hx hlo).reaches hdistance hlow).div hvalue hpos hpart hlow'

theorem reaches_part_of_le (hrq : r ≤ q) : Reaches .negative 1 ((x - lo) / (hi - lo)) := by
  have hvalue := rational?_sub_of_isFinite hhi hlo hspan
  have hpos := toDouble_sub_pos (isDouble_of_rational? hlo) (isDouble_of_rational? hhi) hpq
  refine reaches_part hlo hhi hx hpq hspan
    (neg_le_neg (toDouble_mono (sub_le_sub_right hrq p))) (neg_lt_signed_of_rational? hvalue _) ?_
    (neg_lt_signed_of_rational? rational?_ofInt_constants.2.1 _)
  rw [div_self hpos.ne', toDouble_of_isDouble isDouble_one]

theorem reaches_part_of_ge (hpr : p ≤ r) : Reaches .positive 0 ((x - lo) / (hi - lo)) := by
  have hlow := neg_lt_signed_of_rational? rational?_ofInt_constants.1 .positive
  refine reaches_part hlo hhi hx hpq hspan
    (le_toDouble isDouble_zero (sub_nonneg.mpr hpr)) hlow ?_ hlow
  rw [zero_div, toDouble_zero]

/-- Between the ends of the axis the part is finite. -/
theorem isFinite_part (hpr : p ≤ r) (hrq : r ≤ q) : ((x - lo) / (hi - lo)).isFinite = true := by
  have hvalue := rational?_sub_of_isFinite hhi hlo hspan
  have hpos := toDouble_sub_pos (isDouble_of_rational? hlo) (isDouble_of_rational? hhi) hpq
  have hdistance0 := le_toDouble isDouble_zero (sub_nonneg.mpr hpr)
  have hdistance : |toDouble (r - p)| ≤ toDouble (q - p) := by
    rw [abs_of_nonneg hdistance0]
    exact toDouble_mono (sub_le_sub_right hrq p)
  have hinside : |toDouble (r - p)| < 2 ^ (1024 : ℤ) :=
    hdistance.trans_lt ((le_abs_self _).trans_lt (abs_rational?_lt hvalue))
  have hx' := (rational?_sub hx hlo).trans (if_pos hinside)
  have hpart : |toDouble (r - p) / toDouble (q - p)| ≤ 1 := by
    rw [abs_div, abs_of_pos hpos]
    exact (div_le_one hpos).mpr hdistance
  have hone : (1 : ℚ) < 2 ^ (1024 : ℤ) := two_zpow_lt (e := 0) (by norm_num)
  exact isFinite_of_rational? ((rational?_div hx' hvalue hpos.ne').trans
    (withinRange_toDouble_of_le isDouble_one hone hpart))

theorem reaches_part_of_past (h : q + hair p q < r) :
    Reaches .positive (1 + 1 / 2 ^ 41) ((x - lo) / (hi - lo)) := by
  have hpart := le_toDouble_part (isDouble_of_rational? hlo) (isDouble_of_rational? hhi)
    (isDouble_of_rational? hx) hpq h
  have hpr : 0 ≤ r - p := by
    rw [hair] at h
    linarith
  refine reaches_part hlo hhi hx hpq hspan le_rfl ?_ hpart ?_
  · exact neg_lt_signed_of_nonneg (le_toDouble isDouble_zero hpr)
  · apply neg_lt_signed_of_nonneg
    rw [signed_positive]
    norm_num

theorem reaches_part_of_before (h : r < p - hair p q) :
    Reaches .negative (-(1 / 2 ^ 41)) ((x - lo) / (hi - lo)) := by
  have hpart := toDouble_part_le (isDouble_of_rational? hlo) (isDouble_of_rational? hhi)
    (isDouble_of_rational? hx) hpq h
  have hrp : r - p ≤ 0 := by
    rw [hair] at h
    linarith
  refine reaches_part hlo hhi hx hpq hspan le_rfl ?_ (neg_le_neg hpart) ?_
  · exact neg_lt_signed_of_nonneg (neg_nonneg.mpr (toDouble_le isDouble_zero hrp))
  · apply neg_lt_signed_of_nonneg
    rw [signed_negative]
    norm_num

end Part

end Number

/-! ### The far edge of the frame -/

namespace Canvas

open Number (rational? toDouble Reaches)

/-- The exact numbers of one direction of a canvas: the margin, the length that the margins leave, and
the far edge of the frame. -/
structure IsSide (margin inside edge : Float) (length : ℚ) : Prop where
  margin : rational? margin = some 40
  inside : rational? inside = some length
  edge : rational? edge = some (40 + length)

/-- A number of pixels that two margins fit into, and that is small enough to be exact. -/
structure IsPixelCount (n : ℤ) : Prop where
  margins_le : 80 ≤ n
  le_exact : n ≤ 2 ^ 53

theorem IsPixelCount.isSide {n : ℤ} (h : IsPixelCount n) :
    IsSide standardMargin (Float.ofInt n - standardMargin * Scalar.ofInt 2)
      (Float.ofInt n - standardMargin) (n - 80) := by
  obtain ⟨hmin, hmax⟩ := h
  have hmargin : rational? standardMargin = some 40 := by decide +kernel
  have hmargins : rational? (standardMargin * Scalar.ofInt 2 : Float) = some 80 := by decide +kernel
  have hn : rational? (Float.ofInt n) = some (n : ℚ) := by
    lift n to ℕ using by omega
    exact Number.rational?_ofNat (by exact_mod_cast hmax)
  have hless : ∀ {x : Float} {k : ℤ}, rational? x = some (k : ℚ) → 0 ≤ k → k ≤ 80 →
      rational? (Float.ofInt n - x) = some ((n : ℚ) - k) := by
    intro x k hx hk hk'
    have hwhole := Number.withinRange_toDouble_intCast (n := n - k) (abs_le.mpr ⟨by omega, by omega⟩)
    rw [Int.cast_sub] at hwhole
    exact (Number.rational?_sub hn hx).trans hwhole
  refine ⟨hmargin, ?_, ?_⟩
  · exact_mod_cast hless (k := 80) hmargins (by norm_num) le_rfl
  · have hedge : (40 : ℚ) + (n - 80) = n - (40 : ℤ) := by
      push_cast
      ring
    rw [hedge]
    exact hless (k := 40) hmargin (by norm_num) (by norm_num)

/-- Where the margins leave something of an axis, they leave a pixel. -/
theorem one_le_length {n : ℤ} (h : 80 < n) : (1 : ℚ) ≤ n - 80 := by
  have : (81 : ℚ) ≤ n := by exact_mod_cast h
  linarith

/-- A part of an axis has a length on the device, unless it is infinite and the margins leave nothing. -/
theorem IsPixelCount.hasLength {n : ℤ} (h : IsPixelCount n) {part : Float}
    (hroom : 80 < n ∨ part.isFinite = true) :
    (0 : ℚ) < n - 80 ∨ (0 : ℚ) ≤ n - 80 ∧ part.isFinite = true := by
  rcases hroom with hlt | hfinite
  · exact Or.inl (zero_lt_one.trans_le (one_le_length hlt))
  · exact Or.inr ⟨sub_nonneg.mpr (by exact_mod_cast h.margins_le), hfinite⟩

section Side

variable {margin inside edge part offset : Float} {length : ℚ}
variable (side : IsSide margin inside edge length)

include side

theorem IsSide.le_edge (h : Reaches .negative length offset) : margin + offset ≤ edge := by
  have hplace : Reaches .negative (40 + length) (margin + offset) := by
    refine h.add side.margin ?_ ?_
    · rw [Number.toDouble_rational? side.edge]
    · exact Number.neg_lt_signed_of_rational? side.edge _
  exact Number.le_of_reaches_negative hplace side.edge le_rfl

/-- A part up to the whole of the axis ends inside the frame. -/
theorem IsSide.forward_le_edge (hpart : Reaches .negative 1 part)
    (hroom : 0 < length ∨ 0 ≤ length ∧ part.isFinite = true) : margin + part * inside ≤ edge := by
  refine side.le_edge (hpart.mul side.inside hroom ?_ ?_)
  · rw [one_mul, Number.toDouble_rational? side.inside]
  · exact Number.neg_lt_signed_of_rational? side.inside _

/-- From the other end, so does a part that is not negative. -/
theorem IsSide.backward_le_edge (hpart : Reaches .positive 0 part)
    (hroom : 0 < length ∨ 0 ≤ length ∧ part.isFinite = true) :
    margin + (inside - part * inside) ≤ edge := by
  have hlow := Number.neg_lt_signed_of_rational? Number.rational?_ofInt_constants.1 .positive
  have hdepth : Reaches .positive 0 (part * inside) := by
    refine hpart.mul side.inside hroom ?_ hlow
    rw [zero_mul, Number.toDouble_zero]
  refine side.le_edge (Reaches.sub (s := .negative) side.inside hdepth ?_ ?_)
  · rw [sub_zero, Number.toDouble_rational? side.inside]
  · exact Number.neg_lt_signed_of_rational? side.inside _

variable (hlength : 1 ≤ length)

include hlength

theorem IsSide.not_le_edge (h : Reaches .positive (length + length / 2 ^ 43) offset) :
    ¬margin + offset ≤ edge := by
  have hpast : 40 + length < 40 + length + length / 2 ^ 44 := by linarith
  refine Number.not_le_of_reaches_positive (h.add side.margin ?_ ?_) side.edge hpast
  · rw [Number.signed_positive, Number.signed_positive]
    exact Number.le_toDouble_of_slack (by linarith) (by linarith)
  · apply Number.neg_lt_signed_of_nonneg
    rw [Number.signed_positive]
    linarith

/-- A part that is more than the whole of the axis ends outside the frame. -/
theorem IsSide.not_forward_le_edge (hpart : Reaches .positive (1 + 1 / 2 ^ 41) part) :
    ¬margin + part * inside ≤ edge := by
  refine side.not_le_edge hlength (hpart.mul side.inside (Or.inl (by linarith)) ?_ ?_)
  · rw [Number.signed_positive, Number.signed_positive]
    exact Number.le_toDouble_of_slack (by linarith) (by linarith)
  · apply Number.neg_lt_signed_of_nonneg
    rw [Number.signed_positive]
    linarith

/-- From the other end, so does a part that is less than none. -/
theorem IsSide.not_backward_le_edge (hpart : Reaches .negative (-(1 / 2 ^ 41)) part) :
    ¬margin + (inside - part * inside) ≤ edge := by
  have hdepth : Reaches .negative (-(length / 2 ^ 42)) (part * inside) := by
    refine hpart.mul side.inside (Or.inl (by linarith)) ?_ ?_
    · rw [← Number.toDouble_signed, Number.signed_negative, Number.signed_negative, neg_mul, neg_neg,
        neg_neg]
      exact Number.le_toDouble_of_slack (by linarith) (by linarith)
    · apply Number.neg_lt_signed_of_nonneg
      rw [Number.signed_negative]
      linarith
  refine side.not_le_edge hlength (Reaches.sub (s := .positive) side.inside hdepth ?_ ?_)
  · rw [sub_neg_eq_add, Number.signed_positive, Number.signed_positive]
    exact Number.le_toDouble_of_slack (by linarith) (by linarith)
  · apply Number.neg_lt_signed_of_nonneg
    rw [Number.signed_positive]
    linarith

end Side

end Canvas

end FunctionGraph
