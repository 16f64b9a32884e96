import Mathlib.Algebra.Order.Floor.Ring
import Mathlib.Algebra.Order.Round
import Mathlib.Data.Int.Log
import Mathlib.Data.Rat.Floor
import Mathlib.Tactic.FieldSimp
import Mathlib.Tactic.Linarith
import Mathlib.Tactic.NormNum
import Mathlib.Tactic.Positivity
import Mathlib.Tactic.Ring

/-!
# The nearest double

Which exact number a rational number is rounded to, said without a word on bits: the rational is
measured in units of the last place that a double of its size has, and the nearest integer is taken,
the even one of two. Rounding keeps the order and leaves a double as it is, and all else that is needed
of it follows from the two.
-/

namespace FunctionGraph.Number

/-- No integer is nearer, and of two that are equally near this one is even. -/
structure IsNearestEven (q : ℚ) (n : ℤ) : Prop where
  near : |q - n| ≤ 1 / 2
  even : |q - n| = 1 / 2 → Even n

section NearestEven

variable {q r : ℚ} {n m : ℤ}

theorem IsNearestEven.mono (hq : IsNearestEven q n) (hr : IsNearestEven r m) (h : q ≤ r) : n ≤ m := by
  by_contra hlt
  have hsucc : (m : ℚ) + 1 ≤ n := by exact_mod_cast Int.lt_of_not_ge hlt
  have hlow := abs_le.mp hq.near
  have hhigh := abs_le.mp hr.near
  -- Both are halfway between two neighbours, and only one of the neighbours is even.
  have hqn : |q - n| = 1 / 2 := by
    rw [abs_eq (by norm_num)]
    right
    linarith
  have hrm : |r - m| = 1 / 2 := by
    rw [abs_eq (by norm_num)]
    left
    linarith
  have hnext : n = m + 1 := by
    have : (n : ℚ) = m + 1 := by linarith
    exact_mod_cast this
  have hn := hq.even hqn
  have hm := hr.even hrm
  rw [hnext, Int.even_add_one] at hn
  exact hn hm

theorem IsNearestEven.unique (hn : IsNearestEven q n) (hm : IsNearestEven q m) : n = m :=
  le_antisymm (hn.mono hm (le_refl q)) (hm.mono hn (le_refl q))

theorem IsNearestEven.neg (h : IsNearestEven q n) : IsNearestEven (-q) (-n) := by
  have hflip : |-q - (-n : ℤ)| = |q - n| := by
    rw [Int.cast_neg, ← abs_neg]
    ring_nf
  exact ⟨by rw [hflip]; exact h.near, fun heq => (h.even (hflip ▸ heq)).neg⟩

theorem isNearestEven_intCast (n : ℤ) : IsNearestEven n n := by
  constructor <;> norm_num

theorem exists_isNearestEven (q : ℚ) : ∃ n, IsNearestEven q n := by
  have hfloor := Int.floor_le q
  have hnext := Int.lt_floor_add_one q
  rcases lt_trichotomy (q - ⌊q⌋) (1 / 2) with hless | hhalf | hmore
  · refine ⟨⌊q⌋, ?_, ?_⟩
    · rw [abs_le]
      constructor <;> linarith
    · intro htie
      rw [abs_of_nonneg (by linarith)] at htie
      linarith
  · rcases Int.even_or_odd ⌊q⌋ with heven | hodd
    · exact ⟨⌊q⌋, by rw [hhalf]; norm_num, fun _ => heven⟩
    · have hup : q - (⌊q⌋ + 1 : ℤ) = -(1 / 2) := by
        push_cast
        linarith
      refine ⟨⌊q⌋ + 1, ?_, fun _ => hodd.add_one⟩
      rw [hup]
      norm_num
  · have hup : q - (⌊q⌋ + 1 : ℤ) = q - ⌊q⌋ - 1 := by
      push_cast
      ring
    refine ⟨⌊q⌋ + 1, ?_, ?_⟩
    · rw [hup, abs_le]
      constructor <;> linarith
    · intro htie
      rw [hup, abs_of_nonpos (by linarith)] at htie
      linarith

end NearestEven

noncomputable def nearestEven (q : ℚ) : ℤ :=
  (exists_isNearestEven q).choose

theorem isNearestEven_nearestEven (q : ℚ) : IsNearestEven q (nearestEven q) :=
  (exists_isNearestEven q).choose_spec

/-! ### Units of the last place -/

/-- The unit of the last place of a double of this size is `2 ^ e`. -/
structure IsLastPlace (q : ℚ) (e : ℤ) : Prop where
  least_le : -1074 ≤ e
  lt : |q| < 2 ^ (e + 53)
  le : e = -1074 ∨ 2 ^ (e + 52) ≤ |q|

noncomputable def lastPlace (q : ℚ) : ℤ :=
  max (Int.log 2 |q| - 52) (-1074)

/-- The number that rounding to a double gives, if there were doubles of any size. -/
noncomputable def toDouble (q : ℚ) : ℚ :=
  nearestEven (q / 2 ^ lastPlace q) * 2 ^ lastPlace q

/-- The exact numbers that doubles stand for, and those beyond the largest double. -/
def IsDouble (q : ℚ) : Prop :=
  ∃ (k e : ℤ), |k| < 2 ^ 53 ∧ -1074 ≤ e ∧ q = k * 2 ^ e

section Doubles

variable {q r d : ℚ} {e f : ℤ}

theorem two_zpow_pos (e : ℤ) : (0 : ℚ) < 2 ^ e :=
  zpow_pos (by norm_num) e

theorem mul_two_zpow_nonneg (m : ℕ) (e : ℤ) : 0 ≤ (m : ℚ) * 2 ^ e :=
  mul_nonneg (Nat.cast_nonneg m) (two_zpow_pos e).le

theorem two_zpow_le (h : e ≤ f) : (2 : ℚ) ^ e ≤ 2 ^ f :=
  zpow_le_zpow_right₀ (by norm_num) h

theorem two_zpow_lt (h : e < f) : (2 : ℚ) ^ e < 2 ^ f :=
  zpow_lt_zpow_right₀ (by norm_num) h

theorem two_zpow_split (e f : ℤ) : (2 : ℚ) ^ (e + f) = 2 ^ f * 2 ^ e := by
  rw [zpow_add₀ (by norm_num), mul_comm]

theorem isLastPlace_lastPlace (hq : q ≠ 0) : IsLastPlace q (lastPlace q) := by
  have habs : 0 < |q| := abs_pos.mpr hq
  have hlow := Int.zpow_log_le_self (b := 2) (by norm_num) habs
  have hhigh := Int.lt_zpow_succ_log_self (b := 2) (by norm_num) |q|
  push_cast at hlow hhigh
  refine ⟨le_max_right _ _, ?_, ?_⟩
  · refine lt_of_lt_of_le hhigh (two_zpow_le ?_)
    have := le_max_left (Int.log 2 |q| - 52) (-1074)
    rw [lastPlace]
    omega
  · rcases max_cases (Int.log 2 |q| - 52) (-1074) with ⟨hmax, -⟩ | ⟨hmax, -⟩
    · right
      rw [lastPlace, hmax, Int.sub_add_cancel]
      exact hlow
    · left
      exact hmax

theorem IsLastPlace.unique (he : IsLastPlace q e) (hf : IsLastPlace q f) : e = f := by
  have hle : ∀ {e f : ℤ}, IsLastPlace q e → IsLastPlace q f → e ≤ f := by
    intro e f he hf
    by_contra hlt
    have hlow : 2 ^ (e + 52) ≤ |q| := he.le.resolve_left (by have := hf.least_le; omega)
    have hstep : (2 : ℚ) ^ (f + 53) ≤ 2 ^ (e + 52) := two_zpow_le (by omega)
    have := hf.lt
    linarith
  exact le_antisymm (hle he hf) (hle hf he)

theorem toDouble_zero : toDouble 0 = 0 := by
  have hzero : nearestEven (0 / 2 ^ lastPlace 0) = 0 := by
    have h := isNearestEven_nearestEven (0 / 2 ^ lastPlace 0)
    rw [zero_div] at h ⊢
    have hcast := isNearestEven_intCast 0
    rw [Int.cast_zero] at hcast
    exact h.unique hcast
  rw [toDouble, hzero]
  simp

/-- Rounding in the units of the last place is rounding to an integer. -/
theorem toDouble_eq (he : IsLastPlace q e) {n : ℤ} (hn : IsNearestEven (q / 2 ^ e) n) :
    toDouble q = n * 2 ^ e := by
  rcases eq_or_ne q 0 with rfl | hq
  · rw [zero_div] at hn
    have hcast := isNearestEven_intCast 0
    rw [Int.cast_zero] at hcast
    rw [toDouble_zero, hn.unique hcast]
    simp
  · have hplace : lastPlace q = e := (isLastPlace_lastPlace hq).unique he
    rw [toDouble, hplace, (isNearestEven_nearestEven _).unique hn]

/-- Rounding a number that is given in units of its last place. -/
theorem toDouble_mul_zpow {u : ℚ} {n : ℤ} (hn : IsNearestEven u n) (h0 : 0 ≤ u) (hlt : u < 2 ^ 53)
    (he : -1074 ≤ e) (hle : e = -1074 ∨ 2 ^ 52 ≤ u) : toDouble (u * 2 ^ e) = n * 2 ^ e := by
  have hpos := two_zpow_pos e
  have habs : |u * 2 ^ e| = u * 2 ^ e := abs_of_nonneg (mul_nonneg h0 hpos.le)
  refine toDouble_eq ⟨he, ?_, hle.imp_right fun hle => ?_⟩ ?_
  · rw [habs, two_zpow_split]
    exact mul_lt_mul_of_pos_right (by exact_mod_cast hlt) hpos
  · rw [habs, two_zpow_split]
    exact mul_le_mul_of_nonneg_right (by exact_mod_cast hle) hpos.le
  · rwa [mul_div_cancel_right₀ _ hpos.ne']

theorem exists_toDouble (q : ℚ) : ∃ (e n : ℤ), -1074 ≤ e ∧ |q| < 2 ^ (e + 53)
    ∧ (e = -1074 ∨ 2 ^ (e + 52) ≤ |q|) ∧ IsNearestEven (q / 2 ^ e) n ∧ toDouble q = n * 2 ^ e := by
  rcases eq_or_ne q 0 with rfl | hq
  · refine ⟨-1074, 0, le_refl _, ?_, Or.inl rfl, ?_, ?_⟩
    · rw [abs_zero]
      exact two_zpow_pos _
    · rw [zero_div]
      exact_mod_cast isNearestEven_intCast 0
    · rw [toDouble_zero]
      simp
  · have h := isLastPlace_lastPlace hq
    exact ⟨_, _, h.least_le, h.lt, h.le, isNearestEven_nearestEven _, rfl⟩

theorem toDouble_neg (q : ℚ) : toDouble (-q) = -toDouble q := by
  obtain ⟨e, n, hleast, hlt, hle, hn, hq⟩ := exists_toDouble q
  have hplace : IsLastPlace (-q) e := ⟨hleast, by rwa [abs_neg], by rwa [abs_neg]⟩
  have hneg : IsNearestEven (-q / 2 ^ e) (-n) := by
    rw [neg_div]
    exact hn.neg
  rw [toDouble_eq hplace hneg, hq]
  push_cast
  ring

theorem IsDouble.neg (h : IsDouble q) : IsDouble (-q) := by
  obtain ⟨k, e, hk, he, rfl⟩ := h
  refine ⟨-k, e, by rwa [abs_neg], he, ?_⟩
  push_cast
  ring

/-- Rounding does not pass a double. -/
theorem toDouble_le (hd : IsDouble d) (h : q ≤ d) : toDouble q ≤ d := by
  obtain ⟨e, n, hleast, hlt, hle, hn, hq⟩ := exists_toDouble q
  obtain ⟨k, f, hk, hf, rfl⟩ := hd
  have hpos := two_zpow_pos e
  rw [hq]
  by_cases hfe : e ≤ f
  · -- The double is a whole number of units.
    have hunits : (k : ℚ) * 2 ^ f = (k * 2 ^ (f - e).toNat : ℤ) * 2 ^ e := by
      push_cast
      rw [mul_assoc, ← zpow_natCast, ← zpow_add₀ (by norm_num)]
      congr 2
      omega
    rw [hunits] at h ⊢
    have hbound : q / 2 ^ e ≤ (k * 2 ^ (f - e).toNat : ℤ) := (div_le_iff₀ hpos).mpr h
    have hint := hn.mono (isNearestEven_intCast _) hbound
    exact mul_le_mul_of_nonneg_right (by exact_mod_cast hint) hpos.le
  · -- The double is smaller than any number with these units, so `q` is negative.
    have hlow : 2 ^ (e + 52) ≤ |q| := hle.resolve_left (by omega)
    have hsmall : |(k : ℚ) * 2 ^ f| < 2 ^ (e + 52) := by
      have hk' : |(k : ℚ)| < 2 ^ (53 : ℤ) := by exact_mod_cast hk
      calc |(k : ℚ) * 2 ^ f| = |(k : ℚ)| * 2 ^ f := by rw [abs_mul, abs_of_pos (two_zpow_pos f)]
        _ < 2 ^ (53 : ℤ) * 2 ^ f := mul_lt_mul_of_pos_right hk' (two_zpow_pos f)
        _ = 2 ^ (f + 53) := (two_zpow_split f 53).symm
        _ ≤ 2 ^ (e + 52) := two_zpow_le (by omega)
    have hd := (abs_lt.mp hsmall)
    have hq0 : q ≤ -2 ^ (e + 52) := by
      rcases le_abs.mp hlow with hpos' | hneg
      · linarith
      · linarith
    have hbound : q / 2 ^ e ≤ (-2 ^ 52 : ℤ) := by
      rw [div_le_iff₀ hpos]
      rw [two_zpow_split] at hq0
      push_cast
      norm_num at hq0 ⊢
      linarith
    have hint := hn.mono (isNearestEven_intCast _) hbound
    have hint' : (n : ℚ) ≤ -2 ^ 52 := by exact_mod_cast hint
    calc (n : ℚ) * 2 ^ e ≤ -2 ^ 52 * 2 ^ e := mul_le_mul_of_nonneg_right hint' hpos.le
      _ = -2 ^ (e + 52) := by rw [two_zpow_split]; norm_num
      _ ≤ k * 2 ^ f := hd.1.le

theorem le_toDouble (hd : IsDouble d) (h : d ≤ q) : d ≤ toDouble q := by
  have hneg := toDouble_le hd.neg (neg_le_neg h)
  rw [toDouble_neg] at hneg
  linarith

theorem lt_of_toDouble_lt (hd : IsDouble d) (h : toDouble q < d) : q < d :=
  lt_of_not_ge fun hle => (le_toDouble hd hle).not_gt h

theorem lt_of_lt_toDouble (hd : IsDouble d) (h : d < toDouble q) : d < q :=
  lt_of_not_ge fun hle => (toDouble_le hd hle).not_gt h

theorem toDouble_of_isDouble (hd : IsDouble d) : toDouble d = d :=
  le_antisymm (toDouble_le hd (le_refl d)) (le_toDouble hd (le_refl d))

theorem abs_toDouble_le (hd : IsDouble d) (h : |q| ≤ d) : |toDouble q| ≤ d := by
  obtain ⟨hlow, hhigh⟩ := abs_le.mp h
  exact abs_le.mpr ⟨le_toDouble hd.neg hlow, toDouble_le hd hhigh⟩

theorem isDouble_mul_zpow {k : ℤ} (hk : |k| ≤ 2 ^ 53) (he : -1074 ≤ e) : IsDouble (k * 2 ^ e) := by
  rcases hk.lt_or_eq with hlt | heq
  · exact ⟨k, e, hlt, he, rfl⟩
  · -- Twice as many units as fit: half as many of the next size.
    have hdouble : ∀ s : ℤ, (s * 2 ^ 53 : ℚ) * 2 ^ e = (s * 2 ^ 52) * 2 ^ (e + 1) := by
      intro s
      rw [zpow_add_one₀ (by norm_num)]
      ring
    rcases (abs_eq (by norm_num)).mp heq with rfl | rfl
    · refine ⟨2 ^ 52, e + 1, by norm_num, by omega, ?_⟩
      have := hdouble 1
      push_cast at this ⊢
      linarith
    · refine ⟨-2 ^ 52, e + 1, by norm_num, by omega, ?_⟩
      have := hdouble (-1)
      push_cast at this ⊢
      linarith

theorem isDouble_intCast {k : ℤ} (hk : |k| ≤ 2 ^ 53) : IsDouble k := by
  have := isDouble_mul_zpow (e := 0) hk (by norm_num)
  rwa [zpow_zero, mul_one] at this

theorem isDouble_two_zpow (he : -1074 ≤ e) : IsDouble (2 ^ e) := by
  have := isDouble_mul_zpow (k := 1) (by norm_num) he
  rwa [Int.cast_one, one_mul] at this

theorem isDouble_zero : IsDouble 0 := by
  have := isDouble_intCast (k := 0) (by norm_num)
  rwa [Int.cast_zero] at this

theorem isDouble_one : IsDouble 1 := by
  have := isDouble_two_zpow (e := 0) (by norm_num)
  rwa [zpow_zero] at this

theorem isDouble_toDouble (q : ℚ) : IsDouble (toDouble q) := by
  obtain ⟨e, n, hleast, hlt, -, hn, hq⟩ := exists_toDouble q
  rw [hq]
  refine isDouble_mul_zpow ?_ hleast
  have hunits : |q / 2 ^ e| ≤ (2 ^ 53 : ℤ) := by
    rw [abs_div, abs_of_pos (two_zpow_pos e), div_le_iff₀ (two_zpow_pos e)]
    rw [two_zpow_split] at hlt
    push_cast
    norm_num at hlt ⊢
    exact hlt.le
  obtain ⟨hlow, hhigh⟩ := abs_le.mp hunits
  refine abs_le.mpr ⟨?_, hn.mono (isNearestEven_intCast _) hhigh⟩
  refine (isNearestEven_intCast _).mono hn ?_
  push_cast at hlow ⊢
  exact hlow

theorem toDouble_mono_of_pos (hq : 0 < q) (h : q ≤ r) : toDouble q ≤ toDouble r := by
  have hr := hq.trans_le h
  have hplaceq := isLastPlace_lastPlace hq.ne'
  have hplacer := isLastPlace_lastPlace hr.ne'
  rcases lt_trichotomy (lastPlace q) (lastPlace r) with hlt | heq | hgt
  · -- A power of two stands between the two.
    have hpower : IsDouble (2 ^ (lastPlace q + 53)) :=
      isDouble_two_zpow (by have := hplaceq.least_le; omega)
    have hlow := hplaceq.lt
    have hhigh := hplacer.le.resolve_left (by have := hplaceq.least_le; omega)
    rw [abs_of_pos hq] at hlow
    rw [abs_of_pos hr] at hhigh
    have hstep : (2 : ℚ) ^ (lastPlace q + 53) ≤ 2 ^ (lastPlace r + 52) := two_zpow_le (by omega)
    exact (toDouble_le hpower hlow.le).trans (le_toDouble hpower (hstep.trans hhigh))
  · have hpos := two_zpow_pos (lastPlace q)
    have hunits : q / 2 ^ lastPlace q ≤ r / 2 ^ lastPlace q := div_le_div_of_nonneg_right h hpos.le
    have hnear := isNearestEven_nearestEven (r / 2 ^ lastPlace r)
    rw [toDouble, toDouble, ← heq]
    rw [← heq] at hnear
    have hint := (isNearestEven_nearestEven (q / 2 ^ lastPlace q)).mono hnear hunits
    exact mul_le_mul_of_nonneg_right (by exact_mod_cast hint) hpos.le
  · -- The larger number has no smaller units.
    exfalso
    have hlow := hplaceq.le.resolve_left (by have := hplacer.least_le; omega)
    have hhigh := hplacer.lt
    rw [abs_of_pos hq] at hlow
    rw [abs_of_pos hr] at hhigh
    have hstep : (2 : ℚ) ^ (lastPlace r + 53) ≤ 2 ^ (lastPlace q + 52) := two_zpow_le (by omega)
    linarith

theorem toDouble_mono (h : q ≤ r) : toDouble q ≤ toDouble r := by
  rcases lt_or_ge 0 q with hq | hq
  · exact toDouble_mono_of_pos hq h
  rcases le_or_gt 0 r with hr | hr
  · exact (toDouble_le isDouble_zero hq).trans (le_toDouble isDouble_zero hr)
  · have hneg := toDouble_mono_of_pos (neg_pos.mpr hr) (neg_le_neg h)
    rw [toDouble_neg, toDouble_neg] at hneg
    exact neg_le_neg_iff.mp hneg

/-- Half a unit is the farthest that rounding goes. -/
theorem abs_toDouble_sub_le (he : -1074 ≤ e) (h : |q| < 2 ^ (e + 53)) :
    |toDouble q - q| ≤ 2 ^ e / 2 := by
  obtain ⟨f, n, hleast, -, hle, hn, hq⟩ := exists_toDouble q
  have hfe : f ≤ e := by
    rcases hle with rfl | hle
    · exact he
    · by_contra hgt
      have : (2 : ℚ) ^ (e + 53) ≤ 2 ^ (f + 52) := two_zpow_le (by omega)
      linarith
  have hpos := two_zpow_pos f
  have hscaled : toDouble q - q = -(q / 2 ^ f - n) * 2 ^ f := by
    rw [hq, neg_mul, sub_mul, div_mul_cancel₀ _ hpos.ne']
    ring
  calc |toDouble q - q| = |q / 2 ^ f - n| * 2 ^ f := by
        rw [hscaled, abs_mul, abs_neg, abs_of_pos hpos]
    _ ≤ 1 / 2 * 2 ^ f := mul_le_mul_of_nonneg_right hn.near hpos.le
    _ ≤ 2 ^ e / 2 := by
        have := two_zpow_le hfe
        linarith

/-- A number that fills the mantissa is changed by a small part of it. -/
theorem abs_toDouble_sub_le_of_normal (he : -1074 ≤ e) (hlt : |q| < 2 ^ (e + 53))
    (hle : 2 ^ (e + 52) ≤ |q|) : |toDouble q - q| ≤ |q| / 2 ^ 53 := by
  have hround := abs_toDouble_sub_le he hlt
  have hcast : (2 : ℚ) ^ (52 : ℤ) = 2 ^ 52 := zpow_natCast 2 52
  rw [two_zpow_split, hcast] at hle
  linarith

/-- Rounding changes a number by a small part of it or, among the least doubles, by half their unit. -/
theorem abs_toDouble_sub_le_part (q : ℚ) : |toDouble q - q| ≤ |q| / 2 ^ 53 + 2 ^ (-1075 : ℤ) := by
  obtain ⟨e, -, hleast, hlt, hle, -, -⟩ := exists_toDouble q
  rcases hle with rfl | hle
  · have hround := abs_toDouble_sub_le hleast hlt
    have hhalf : (2 : ℚ) ^ (-1074 : ℤ) / 2 = 2 ^ (-1075 : ℤ) :=
      (zpow_sub_one₀ (by norm_num) (-1074)).symm
    have : 0 ≤ |q| / 2 ^ 53 := by positivity
    linarith
  · have hround := abs_toDouble_sub_le_of_normal hleast hlt hle
    have hpos := two_zpow_pos (-1075)
    linarith

/-- Multiples of the least double are doubles where they do not fill the mantissa, so rounding changes
them by a small part at most. -/
theorem abs_toDouble_sub_le_of_multiple {n : ℤ} (hq : q = n * 2 ^ (-1074 : ℤ)) :
    |toDouble q - q| ≤ |q| / 2 ^ 53 := by
  obtain ⟨e, -, hleast, hlt, hle, -, -⟩ := exists_toDouble q
  rcases hle with rfl | hle
  · have hn : |n| ≤ 2 ^ 53 := by
      rw [hq, abs_mul, abs_of_pos (two_zpow_pos _), two_zpow_split] at hlt
      have hn' := lt_of_mul_lt_mul_right hlt (two_zpow_pos _).le
      exact_mod_cast hn'.le
    rw [toDouble_of_isDouble (hq ▸ isDouble_mul_zpow hn le_rfl), sub_self, abs_zero]
    positivity
  · exact abs_toDouble_sub_le_of_normal hleast hlt hle

/-- What is no larger than half the least double rounds to zero. -/
theorem toDouble_eq_zero (h : |q| ≤ 2 ^ (-1074 : ℤ) / 2) : toDouble q = 0 := by
  have hpos := two_zpow_pos (-1074)
  have hplace : IsLastPlace q (-1074) := by
    refine ⟨le_refl _, ?_, Or.inl rfl⟩
    calc |q| ≤ 2 ^ (-1074 : ℤ) / 2 := h
      _ < 2 ^ (-1074 : ℤ) := half_lt_self hpos
      _ ≤ 2 ^ (-1074 + 53 : ℤ) := two_zpow_le (by norm_num)
  have hnear : IsNearestEven (q / 2 ^ (-1074 : ℤ)) 0 := by
    refine ⟨?_, fun _ => Even.zero⟩
    rw [Int.cast_zero, sub_zero, abs_div, abs_of_pos hpos, div_le_iff₀ hpos]
    rwa [one_div_mul_eq_div]
  rw [toDouble_eq hplace hnear]
  simp

/-- Between two neighbouring multiples of the unit there is no double. -/
theorem IsDouble.not_between {k : ℤ} (hd : IsDouble d) (hk : 2 ^ 52 ≤ k) (hlow : k * 2 ^ e < d)
    (hhigh : d < (k + 1) * 2 ^ e) : False := by
  obtain ⟨j, f, hj, -, rfl⟩ := hd
  have hk' : (2 ^ 52 : ℚ) ≤ k := by exact_mod_cast hk
  have hj' : |(j : ℚ)| < 2 ^ 53 := by exact_mod_cast hj
  have hpos := two_zpow_pos e
  by_cases hfe : e ≤ f
  · have hunits : (j : ℚ) * 2 ^ f = (j * 2 ^ (f - e).toNat : ℤ) * 2 ^ e := by
      push_cast
      rw [mul_assoc, ← zpow_natCast, ← zpow_add₀ (by norm_num)]
      congr 2
      omega
    rw [hunits] at hlow hhigh
    have hlow' := lt_of_mul_lt_mul_right hlow hpos.le
    have hhigh' := lt_of_mul_lt_mul_right hhigh hpos.le
    have h₁ : k < j * 2 ^ (f - e).toNat := by exact_mod_cast hlow'
    have h₂ : j * 2 ^ (f - e).toNat < k + 1 := by exact_mod_cast hhigh'
    omega
  · have hsmall : (j : ℚ) * 2 ^ f < 2 ^ 53 * 2 ^ f :=
      mul_lt_mul_of_pos_right (lt_of_le_of_lt (le_abs_self _) hj') (two_zpow_pos f)
    have hstep : (2 : ℚ) ^ 53 * 2 ^ f ≤ 2 ^ 52 * 2 ^ e := by
      have := two_zpow_le (e := f + 53) (f := e + 52) (by omega)
      rw [two_zpow_split, two_zpow_split] at this
      exact_mod_cast this
    have hbig : (2 : ℚ) ^ 52 * 2 ^ e ≤ k * 2 ^ e := mul_le_mul_of_nonneg_right hk' hpos.le
    linarith

end Doubles

end FunctionGraph.Number
