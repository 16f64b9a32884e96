import FunctionGraph.Proofs.Number.RoundedParts

/-!
# Arithmetic of doubles

An operation on finite doubles gives the double nearest to the exact result, unless that is too large
for a double. Everything else that is said of calculations with doubles rests on this.
-/

namespace FunctionGraph.Number

open Float.Model (UnpackedFloat Format)
open Float.Model.UnpackedFloat

def signed : Sign → ℚ → ℚ
  | .positive, q => q
  | .negative, q => -q

def rationalOf? : UnpackedFloat → Option ℚ
  | .finite sign m e _ => some (signed sign (m * 2 ^ e))
  | .zero _ => some 0
  | _ => none

/-- The exact number that a finite double stands for. -/
def rational? (x : Float) : Option ℚ :=
  rationalOf? x.toModel.unpack

/-- The number, unless it is beyond the largest double. -/
def withinRange (q : ℚ) : Option ℚ :=
  if |q| < 2 ^ (1024 : ℤ) then some q else none

section Signs

variable {s t : Sign} {p q : ℚ}

theorem signed_positive (q : ℚ) : signed .positive q = q :=
  rfl

theorem signed_negative (q : ℚ) : signed .negative q = -q :=
  rfl

@[simp]
theorem signed_zero (s : Sign) : signed s 0 = 0 := by
  cases s
  · exact neg_zero
  · rfl

@[simp]
theorem abs_signed (s : Sign) (q : ℚ) : |signed s q| = |q| := by
  cases s
  · exact abs_neg q
  · rfl

theorem toDouble_signed (s : Sign) (q : ℚ) : toDouble (signed s q) = signed s (toDouble q) := by
  cases s
  · exact toDouble_neg q
  · rfl

theorem signed_neg (s : Sign) (q : ℚ) : signed (-s) q = -signed s q := by
  cases s
  · exact (neg_neg q).symm
  · rfl

@[simp]
theorem signed_signed (s : Sign) (q : ℚ) : signed s (signed s q) = q := by
  cases s
  · exact neg_neg q
  · rfl

theorem signed_add (s : Sign) (p q : ℚ) : signed s (p + q) = signed s p + signed s q := by
  cases s
  · exact neg_add p q
  · rfl

theorem signed_sub (s : Sign) (p q : ℚ) : signed s (p - q) = signed s p - signed s q := by
  cases s
  · exact neg_sub' p q
  · rfl

theorem signed_mul_right (s : Sign) (p q : ℚ) : signed s (p * q) = signed s p * q := by
  cases s
  · exact (neg_mul p q).symm
  · rfl

theorem signed_mul (s t : Sign) (p q : ℚ) : signed (s * t) (p * q) = signed s p * signed t q := by
  cases s <;> cases t
  · exact (neg_mul_neg p q).symm
  · exact (neg_mul p q).symm
  · exact (mul_neg p q).symm
  · rfl

theorem signed_div (s t : Sign) (p q : ℚ) : signed (s / t) (p / q) = signed s p / signed t q := by
  cases s <;> cases t
  · exact (neg_div_neg_eq p q).symm
  · exact (neg_div q p).symm
  · exact (div_neg p).symm
  · rfl

theorem signed_injective : Function.Injective (signed s) := by
  cases s
  · exact neg_injective
  · exact Function.injective_id

theorem cast_apply (s : Sign) (n : ℤ) : ((s.apply n : ℤ) : ℚ) = signed s n := by
  cases s
  · exact Int.cast_neg n
  · rfl

theorem IsDouble.signed (h : IsDouble q) (s : Sign) : IsDouble (signed s q) := by
  cases s
  · exact h.neg
  · exact h

end Signs

section Parts

variable {x : Float} {q : ℚ} {sign : Sign} {m : ℕ} {e : ℤ} {hm : 0 < m}

/-- The parts of a double that stands for a number. -/
theorem rational?_cases (h : rational? x = some q) :
    (∃ s, x.toModel.unpack = .zero s ∧ q = 0) ∨
      ∃ s m e hm, x.toModel.unpack = .finite s m e hm ∧ IsCanonical m e ∧ e ≤ 971
        ∧ q = signed s (m * 2 ^ e) := by
  rw [rational?] at h
  cases hunpack : x.toModel.unpack with
  | notANumber => rw [hunpack] at h; cases h
  | infinity s => rw [hunpack] at h; cases h
  | zero s =>
    rw [hunpack] at h
    exact Or.inl ⟨s, rfl, (Option.some.inj h).symm⟩
  | finite s m e hm =>
    rw [hunpack] at h
    obtain ⟨hcanonical, he⟩ := isCanonical_of_unpack hunpack
    exact Or.inr ⟨s, m, e, hm, rfl, hcanonical, he, (Option.some.inj h).symm⟩

theorem IsCanonical.isDouble (h : IsCanonical m e) : IsDouble (m * 2 ^ e) :=
  ⟨m, e, by rw [abs_of_nonneg (Int.natCast_nonneg m)]; exact_mod_cast h.lt, h.least_le, by norm_cast⟩

theorem isDouble_of_rational? (h : rational? x = some q) : IsDouble q := by
  obtain ⟨s, -, rfl⟩ | ⟨s, m, e, hm, -, hcanonical, -, rfl⟩ := rational?_cases h
  · exact ⟨0, -1074, by norm_num, le_refl _, by simp⟩
  · exact hcanonical.isDouble.signed s

/-- The largest double. -/
theorem abs_rational?_le (h : rational? x = some q) : |q| ≤ (2 ^ 53 - 1) * 2 ^ (971 : ℤ) := by
  obtain ⟨s, -, rfl⟩ | ⟨s, m, e, hm, -, hcanonical, he, rfl⟩ := rational?_cases h
  · rw [abs_zero]
    exact mul_nonneg (by norm_num) (two_zpow_pos _).le
  · have hm' : (m : ℚ) + 1 ≤ 2 ^ 53 := by exact_mod_cast hcanonical.lt
    rw [abs_signed, abs_of_nonneg (mul_two_zpow_nonneg m e)]
    exact mul_le_mul (by linarith) (two_zpow_le he) (two_zpow_pos e).le (by norm_num)

theorem two_zpow_largest : (2 : ℚ) ^ (1024 : ℤ) = 2 ^ 53 * 2 ^ (971 : ℤ) := by
  have hsum : (1024 : ℤ) = 971 + 53 := by norm_num
  have hcast : (2 : ℚ) ^ (53 : ℤ) = 2 ^ 53 := zpow_natCast 2 53
  rw [hsum, two_zpow_split, hcast]

theorem abs_rational?_lt (h : rational? x = some q) : |q| < 2 ^ (1024 : ℤ) := by
  rw [two_zpow_largest]
  refine (abs_rational?_le h).trans_lt (mul_lt_mul_of_pos_right ?_ (two_zpow_pos _))
  norm_num

/-- Far below the next power of two, the largest double has room for a small number. -/
theorem isSome_withinRange_toDouble (h : |q| ≤ (2 ^ 53 - 1) * 2 ^ (971 : ℤ) + 2 ^ 53) :
    (withinRange (toDouble q)).isSome = true := by
  have hunit : (2 : ℚ) ^ (55 : ℤ) < 2 ^ (971 : ℤ) := two_zpow_lt (by norm_num)
  have hround := abs_toDouble_sub_le (q := q) (e := 971) (by norm_num)
  have htriangle : |toDouble q| ≤ |toDouble q - q| + |q| := by
    have := abs_add_le (toDouble q - q) q
    rwa [sub_add_cancel] at this
  rw [two_zpow_split] at hround
  rw [withinRange, two_zpow_largest]
  generalize (2 : ℚ) ^ (971 : ℤ) = unit at h hunit hround ⊢
  norm_num at h hunit hround ⊢
  have := hround (by linarith)
  linarith

theorem withinRange_toDouble_of_le {d : ℚ} (hd : IsDouble d) (hlt : d < 2 ^ (1024 : ℤ)) (h : |q| ≤ d) :
    withinRange (toDouble q) = some (toDouble q) :=
  if_pos ((abs_toDouble_le hd h).trans_lt hlt)

@[simp]
theorem withinRange_zero : withinRange 0 = some 0 := by
  rw [withinRange, abs_zero, if_pos (two_zpow_pos _)]

theorem withinRange_eq_some {d : ℚ} : withinRange q = some d ↔ |q| < 2 ^ (1024 : ℤ) ∧ q = d := by
  rw [withinRange, Option.ite_none_right_eq_some, Option.some.injEq]

/-- Integers that are no longer than a mantissa are doubles. -/
theorem withinRange_toDouble_intCast {n : ℤ} (hn : |n| ≤ 2 ^ 53) :
    withinRange (toDouble n) = some (n : ℚ) := by
  rw [toDouble_of_isDouble (isDouble_intCast hn)]
  refine if_pos (lt_of_le_of_lt ?_ (two_zpow_lt (e := 53) (by norm_num)))
  exact_mod_cast hn

/-- What is no larger than a finite double stands above the least of all results that are infinite. -/
theorem neg_lt_signed_of_rational? (h : rational? x = some q) (s : Sign) :
    -2 ^ (1024 : ℤ) < signed s q := by
  have hsize := abs_rational?_lt h
  rw [← abs_signed s] at hsize
  exact (abs_lt.mp hsize).1

theorem withinRange_rational? (h : rational? x = some q) : withinRange q = some q :=
  if_pos (abs_rational?_lt h)

theorem rational?_of_unpack {u : UnpackedFloat} (h : x.toModel.unpack = u) :
    rational? x = rationalOf? u :=
  congrArg rationalOf? h

theorem rationalOf?_ofMantissa (sign : Sign) (m : ℕ) (e : ℤ) :
    rationalOf? (ofMantissa sign m e) = some (signed sign (m * 2 ^ e)) := by
  rw [ofMantissa]
  split
  · next hzero => rw [hzero, Nat.cast_zero, zero_mul, signed_zero]; rfl
  · rfl

/-- Packing keeps the number, when doubles reach as far. -/
theorem rational?_pack (hcanonical : IsCanonical m e) :
    rational? (.ofModel (.pack (ofMantissa sign m e))) = withinRange (signed sign (m * 2 ^ e)) := by
  have hpos := two_zpow_pos e
  have hsize : |signed sign ((m : ℚ) * 2 ^ e)| = m * 2 ^ e := by
    rw [abs_signed, abs_of_nonneg (mul_nonneg (Nat.cast_nonneg m) hpos.le)]
  rw [withinRange, hsize]
  by_cases hfits : m = 0 ∨ e ≤ 971
  · have hlt : (m : ℚ) * 2 ^ e < 2 ^ (1024 : ℤ) := by
      rcases hfits with rfl | he
      · rw [Nat.cast_zero, zero_mul]
        exact two_zpow_pos _
      · have hm : (m : ℚ) < 2 ^ 53 := by exact_mod_cast hcanonical.lt
        calc (m : ℚ) * 2 ^ e < 2 ^ 53 * 2 ^ e := mul_lt_mul_of_pos_right hm hpos
          _ = 2 ^ (e + 53) := by rw [two_zpow_split]; norm_cast
          _ ≤ 2 ^ (1024 : ℤ) := two_zpow_le (by omega)
    rw [if_pos hlt, ← rationalOf?_ofMantissa]
    refine rational?_of_unpack ?_
    change (Float.Model.pack (ofMantissa sign m e)).unpack = _
    rw [ofMantissa]
    split
    · exact unpack_pack_zero sign
    · exact unpack_pack _ hcanonical (hfits.resolve_left ‹_›)
  · have hlarge : 972 ≤ e := by omega
    have hm : (2 ^ 52 : ℚ) ≤ m := by exact_mod_cast hcanonical.le.resolve_left (by omega)
    have hge : ¬(m : ℚ) * 2 ^ e < 2 ^ (1024 : ℤ) := by
      rw [not_lt]
      calc (2 : ℚ) ^ (1024 : ℤ) ≤ 2 ^ (e + 52) := two_zpow_le (by omega)
        _ = 2 ^ 52 * 2 ^ e := by rw [two_zpow_split]; norm_cast
        _ ≤ m * 2 ^ e := mul_le_mul_of_nonneg_right hm hpos.le
    rw [if_neg hge, ofMantissa, dif_neg (by omega)]
    exact rational?_of_unpack (unpack_pack_large _ hlarge)

/-- Rounding and packing give the nearest double. -/
theorem rational?_round {accuracy : Accuracy} (hq : IsResidue accuracy (q / 2 ^ e - m))
    (he : e ≤ max (m.log2 + e - 52) (-1074)) :
    rational? (.ofModel (.pack (roundWithAccuracy Format.binary64 sign m e accuracy)))
      = withinRange (toDouble (signed sign q)) := by
  obtain ⟨n, f, hround, hcanonical, hvalue⟩ := exists_roundWithAccuracy sign hq he
  rw [hround, toDouble_signed, ← hvalue]
  exact rational?_pack hcanonical

theorem rational?_round_exact (hm : 0 < m) :
    rational? (.ofModel (.pack (UnpackedFloat.round Format.binary64 sign m e)))
      = withinRange (toDouble (signed sign (m * 2 ^ e))) := by
  obtain ⟨n, f, hround, hcanonical, hvalue⟩ := exists_round sign (e := e) hm
  rw [hround, toDouble_signed, ← hvalue]
  exact rational?_pack hcanonical

theorem rational?_normalize {k : ℤ} :
    rational? (.ofModel (.pack (UnpackedFloat.normalize Format.binary64 k e sign)))
      = withinRange (toDouble (k * 2 ^ e)) := by
  rw [UnpackedFloat.normalize]
  rcases lt_trichotomy k 0 with hneg | rfl | hpos
  · have hcast : (((-k).toNat : ℕ) : ℚ) = -k := by
      have : (((-k).toNat : ℕ) : ℤ) = -k := Int.toNat_of_nonneg (by omega)
      exact_mod_cast this
    have hsigned : signed .negative ((-k).toNat * 2 ^ e) = k * 2 ^ e := by
      rw [hcast, signed]
      ring
    rw [compare_lt_iff_lt.mpr hneg, ← hsigned]
    exact rational?_round_exact (by omega)
  · rw [compare_eq_iff_eq.mpr rfl, Int.cast_zero, zero_mul, toDouble_zero, withinRange_zero]
    exact rational?_of_unpack (unpack_pack_zero sign)
  · have hcast : ((k.toNat : ℕ) : ℚ) = k := by
      have : ((k.toNat : ℕ) : ℤ) = k := Int.toNat_of_nonneg hpos.le
      exact_mod_cast this
    rw [compare_gt_iff_gt.mpr hpos, ← hcast]
    exact rational?_round_exact (by omega)

end Parts

section Operations

variable {x y : Float} {p q : ℚ}

theorem rational?_repack (hx : rational? x = some p) :
    rational? (.ofModel (.pack x.toModel.unpack)) = some p := by
  obtain ⟨s, hunpack, rfl⟩ | ⟨s, m, e, hm, hunpack, hcanonical, he, rfl⟩ := rational?_cases hx <;>
    rw [hunpack]
  · exact rational?_of_unpack (unpack_pack_zero s)
  · exact rational?_of_unpack (unpack_pack hm hcanonical he)

theorem toDouble_rational? (hx : rational? x = some p) : toDouble p = p :=
  toDouble_of_isDouble (isDouble_of_rational? hx)

theorem unpack_neg (hx : rational? x = some p) : (-x).toModel.unpack = x.toModel.unpack.neg := by
  change (Float.Model.pack x.toModel.unpack.neg).unpack = _
  obtain ⟨s, hunpack, -⟩ | ⟨s, m, e, hm, hunpack, hcanonical, he, -⟩ := rational?_cases hx <;>
    rw [hunpack]
  · exact unpack_pack_zero (-s)
  · exact unpack_pack hm hcanonical he

theorem rational?_neg (hx : rational? x = some p) : rational? (-x) = some (-p) := by
  rw [rational?, unpack_neg hx]
  obtain ⟨s, hunpack, rfl⟩ | ⟨s, m, e, hm, hunpack, -, -, rfl⟩ := rational?_cases hx <;>
    rw [hunpack]
  · rw [neg_zero]
    rfl
  · rw [← signed_neg]
    rfl

theorem decreaseExponent_mul_zpow {e t : ℤ} (m : ℕ) (h : t ≤ e) :
    ((decreaseExponent m e t).1 : ℚ) * 2 ^ t = m * 2 ^ e := by
  rw [decreaseExponent, Nat.shiftLeft_eq]
  push_cast
  rw [mul_assoc, ← zpow_natCast, ← zpow_add₀ (by norm_num)]
  congr 2
  omega

/-- A sum of parts, over the smaller of the two exponents. -/
theorem signed_add_signed (s t : Sign) (m n : ℕ) (e f : ℤ) :
    signed s (m * 2 ^ e) + signed t (n * 2 ^ f)
      = ((s.apply (decreaseExponent m e (min e f)).1
          + t.apply (decreaseExponent n f (min e f)).1 : ℤ) : ℚ) * 2 ^ min e f := by
  push_cast
  rw [cast_apply, cast_apply, add_mul, ← signed_mul_right, ← signed_mul_right]
  exact congrArg₂ (fun a b => signed s a + signed t b)
    (decreaseExponent_mul_zpow m (min_le_left e f)).symm
    (decreaseExponent_mul_zpow n (min_le_right e f)).symm

theorem rational?_add (hx : rational? x = some p) (hy : rational? y = some q) :
    rational? (x + y) = withinRange (toDouble (p + q)) := by
  have hmodel : x + y
      = .ofModel (.pack (UnpackedFloat.add Format.binary64 x.toModel.unpack y.toModel.unpack)) := rfl
  have hx' := rational?_repack hx
  have hy' := rational?_repack hy
  rw [hmodel]
  obtain ⟨s, hunpackx, rfl⟩ | ⟨s, m, e, hm, hunpackx, hcanonical, he, rfl⟩ := rational?_cases hx <;>
    obtain ⟨t, hunpacky, rfl⟩ | ⟨t, n, f, hn, hunpacky, hcanonicaly, hf, rfl⟩ := rational?_cases hy <;>
    rw [hunpackx] at hx' ⊢ <;> rw [hunpacky] at hy' ⊢
  · rw [add_zero, toDouble_zero, withinRange_zero]
    simp only [UnpackedFloat.add]
    split
    · exact hx'
    · exact rational?_of_unpack (unpack_pack_zero _)
  · rw [zero_add, toDouble_rational? hy, withinRange_rational? hy]
    exact hy'
  · rw [add_zero, toDouble_rational? hx, withinRange_rational? hx]
    exact hx'
  · rw [signed_add_signed]
    exact rational?_normalize

theorem unpacked_sub_eq_add_neg (u v : UnpackedFloat) :
    u.sub Format.binary64 v = u.add Format.binary64 v.neg := by
  cases u <;> cases v <;> try rfl
  case finite.finite s m e _ t n f _ =>
    have hflip : ∀ k : ℤ, (-t).apply k = -t.apply k := by
      intro k
      cases t
      · exact (neg_neg k).symm
      · rfl
    simp only [UnpackedFloat.sub, UnpackedFloat.add, UnpackedFloat.neg, hflip, Int.sub_eq_add_neg]

theorem sub_eq_add_neg_of_rational? (x : Float) (hy : rational? y = some q) : x - y = x + -y := by
  change Float.ofModel (.pack (UnpackedFloat.sub Format.binary64 _ _))
    = .ofModel (.pack (UnpackedFloat.add Format.binary64 _ _))
  rw [unpacked_sub_eq_add_neg, unpack_neg hy]

theorem rational?_sub (hx : rational? x = some p) (hy : rational? y = some q) :
    rational? (x - y) = withinRange (toDouble (p - q)) := by
  rw [sub_eq_add_neg, sub_eq_add_neg_of_rational? x hy]
  exact rational?_add hx (rational?_neg hy)

/-- The product of two mantissas has enough bits, unless both numbers are subnormal. -/
theorem IsCanonical.mul_le {m n : ℕ} {e f : ℤ} (hm : IsCanonical m e) (hn : IsCanonical n f)
    (hm0 : 0 < m) (hn0 : 0 < n) : e + f ≤ max ((m * n).log2 + (e + f) - 52) (-1074) := by
  have hnormal : e + f ≤ -1074 ∨ 2 ^ 52 ≤ m * n := by
    rcases hm.le with he | hm52
    · rcases hn.le with hf | hn52
      · left
        omega
      · right
        exact le_trans hn52 (Nat.le_mul_of_pos_left n hm0)
    · right
      exact le_trans hm52 (Nat.le_mul_of_pos_right m hn0)
  rcases hnormal with hsmall | hlarge
  · exact le_max_of_le_right hsmall
  · have := (Nat.le_log2 (Nat.mul_pos hm0 hn0).ne').mpr hlarge
    omega

theorem signed_mul_signed (s t : Sign) (m n : ℕ) (e f : ℤ) :
    signed s (m * 2 ^ e) * signed t (n * 2 ^ f) = signed (s * t) ((m * n : ℕ) * 2 ^ (e + f)) := by
  rw [← signed_mul, zpow_add₀ (by norm_num)]
  congr 1
  push_cast
  ring

/-- A product of parts that need not be those of doubles. -/
theorem rational?_mul_finite {s t : Sign} {m n : ℕ} {e f : ℤ} (hm : 0 < m) (hn : 0 < n)
    (hbits : e + f ≤ max ((m * n).log2 + (e + f) - 52) (-1074)) :
    rational? (.ofModel (.pack
        (UnpackedFloat.mul Format.binary64 (.finite s m e hm) (.finite t n f hn))))
      = withinRange (toDouble (signed s (m * 2 ^ e) * signed t (n * 2 ^ f))) := by
  rw [signed_mul_signed]
  refine rational?_round ?_ hbits
  rw [IsResidue, mul_div_cancel_right₀ _ (two_zpow_pos _).ne', sub_self]

theorem rational?_mul (hx : rational? x = some p) (hy : rational? y = some q) :
    rational? (x * y) = withinRange (toDouble (p * q)) := by
  have hmodel : x * y
      = .ofModel (.pack (UnpackedFloat.mul Format.binary64 x.toModel.unpack y.toModel.unpack)) := rfl
  rw [hmodel]
  obtain ⟨s, hunpackx, rfl⟩ | ⟨s, m, e, hm, hunpackx, hcx, -, rfl⟩ := rational?_cases hx <;>
    obtain ⟨t, hunpacky, rfl⟩ | ⟨t, n, f, hn, hunpacky, hcy, -, rfl⟩ := rational?_cases hy <;>
    rw [hunpackx, hunpacky]
  · rw [mul_zero, toDouble_zero, withinRange_zero]
    exact rational?_of_unpack (unpack_pack_zero _)
  · rw [zero_mul, toDouble_zero, withinRange_zero]
    exact rational?_of_unpack (unpack_pack_zero _)
  · rw [mul_zero, toDouble_zero, withinRange_zero]
    exact rational?_of_unpack (unpack_pack_zero _)
  · exact rational?_mul_finite hm hn (hcx.mul_le hcy hm hn)

theorem isResidue_accuracyOfFraction (k : ℕ) {n : ℕ} (hn : 0 < n) :
    IsResidue (accuracyOfFraction (k % n) n) (k / n - (k / n : ℕ)) := by
  have hn' : (0 : ℚ) < n := by exact_mod_cast hn
  have hsplit : (k : ℚ) = n * (k / n : ℕ) + (k % n : ℕ) := by exact_mod_cast (Nat.div_add_mod k n).symm
  have hrest : (k : ℚ) / n - (k / n : ℕ) = (k % n : ℕ) / n := by
    rw [eq_div_iff hn'.ne', sub_mul, div_mul_cancel₀ _ hn'.ne']
    linarith
  rw [hrest, accuracyOfFraction]
  have hless : ((k % n : ℕ) : ℚ) / n < 1 := by
    rw [div_lt_one hn']
    exact_mod_cast Nat.mod_lt k hn
  have hdouble : 2 * (((k % n : ℕ) : ℚ) / n) = (2 * (k % n) : ℕ) / n := by
    push_cast
    ring
  split
  · next hzero => rw [hzero, Nat.cast_zero, zero_div, IsResidue]
  · next hnonzero =>
    have hpos : (0 : ℚ) < (k % n : ℕ) / n :=
      div_pos (by exact_mod_cast Nat.pos_of_ne_zero hnonzero) hn'
    rcases lt_trichotomy (2 * (k % n)) n with hlt | heq | hgt
    · rw [compare_lt_iff_lt.mpr hlt, IsResidue, hdouble, div_lt_one hn']
      exact ⟨hpos, by exact_mod_cast hlt⟩
    · rw [compare_eq_iff_eq.mpr heq, IsResidue, hdouble, heq, div_self hn'.ne']
    · rw [compare_gt_iff_gt.mpr hgt, IsResidue, hdouble, one_lt_div hn']
      exact ⟨by exact_mod_cast hgt, hless⟩

/-- A quotient is taken with enough bits. -/
theorem log2_quotient_le {m n : ℕ} {e f t : ℤ} (hm : 0 < m) (hn : 0 < n)
    (ht : t = min (e - f) (max ((m.log2 : ℤ) + e - (n.log2 + f) - 53) (-1074))) :
    t ≤ max (((m <<< (e - f - t).toNat) / n).log2 + t - 52) (-1074) := by
  rcases le_or_gt t (-1074) with hsmall | hlarge
  · exact le_max_of_le_right hsmall
  · have hbits : n.log2 + 53 ≤ m.log2 + (e - f - t).toNat := by omega
    have hnumerator : 2 ^ 52 * n ≤ m <<< (e - f - t).toNat := by
      rw [Nat.shiftLeft_eq]
      calc 2 ^ 52 * n ≤ 2 ^ 52 * 2 ^ (n.log2 + 1) := Nat.mul_le_mul_left _ Nat.lt_log2_self.le
        _ = 2 ^ (n.log2 + 53) := by rw [← pow_add]; congr 1; ring
        _ ≤ 2 ^ (m.log2 + (e - f - t).toNat) := Nat.pow_le_pow_right (by norm_num) hbits
        _ = 2 ^ m.log2 * 2 ^ (e - f - t).toNat := pow_add _ _ _
        _ ≤ m * 2 ^ (e - f - t).toNat := Nat.mul_le_mul_right _ (Nat.log2_self_le hm.ne')
    have hquotient : 2 ^ 52 ≤ (m <<< (e - f - t).toNat) / n :=
      (Nat.le_div_iff_mul_le hn).mpr hnumerator
    have := (Nat.le_log2 (by omega)).mpr hquotient
    omega

/-- A quotient of parts, before it is rounded. -/
theorem exists_div_finite {s t : Sign} {m n : ℕ} {e f : ℤ} (hm : 0 < m) (hn : 0 < n) :
    ∃ k u accuracy, UnpackedFloat.div Format.binary64 (.finite s m e hm) (.finite t n f hn)
        = roundWithAccuracy Format.binary64 (s / t) k u accuracy
      ∧ IsResidue accuracy ((m : ℚ) * 2 ^ e / (n * 2 ^ f) / 2 ^ u - k)
      ∧ u ≤ max (k.log2 + u - 52) (-1074) := by
  simp only [UnpackedFloat.div, divCore]
  have htarget : Format.binary64.targetExponent
      (Float.Model.totalExponent m e - Float.Model.totalExponent n f)
      = max ((m.log2 : ℤ) + e - (n.log2 + f) - 53) (-1074) := by
    have hbits : (Format.binary64.mantissaBits : ℤ) = 53 := by decide
    have hleast : Format.binary64.minExponent = -1074 := by decide
    rw [Format.targetExponent, Float.Model.totalExponent, Float.Model.totalExponent, hbits, hleast]
    congr 1
    ring
  rw [htarget]
  set u := min (e - f) (max ((m.log2 : ℤ) + e - (n.log2 + f) - 53) (-1074)) with hu
  have hn' : (0 : ℚ) < n := by exact_mod_cast hn
  have hscaled : (m : ℚ) * 2 ^ e / (n * 2 ^ f) / 2 ^ u = (m <<< (e - f - u).toNat : ℕ) / n := by
    have hshift : (2 : ℚ) ^ e = 2 ^ (e - f - u).toNat * 2 ^ f * 2 ^ u := by
      rw [← zpow_natCast, ← zpow_add₀ (by norm_num), ← zpow_add₀ (by norm_num)]
      congr 1
      omega
    rw [Nat.shiftLeft_eq, hshift]
    push_cast
    have := two_zpow_pos f
    have := two_zpow_pos u
    field_simp
  refine ⟨_, u, _, rfl, ?_, log2_quotient_le hm hn hu⟩
  rw [hscaled]
  exact isResidue_accuracyOfFraction _ hn

/-- A quotient of parts that need not be those of doubles. -/
theorem rational?_div_finite {s t : Sign} {m n : ℕ} {e f : ℤ} (hm : 0 < m) (hn : 0 < n) :
    rational? (.ofModel (.pack
        (UnpackedFloat.div Format.binary64 (.finite s m e hm) (.finite t n f hn))))
      = withinRange (toDouble (signed s (m * 2 ^ e) / signed t (n * 2 ^ f))) := by
  obtain ⟨k, u, accuracy, hdiv, hresidue, hbits⟩ := exists_div_finite (s := s) (t := t) hm hn
  rw [hdiv, ← signed_div]
  exact rational?_round hresidue hbits

theorem rational?_div (hx : rational? x = some p) (hy : rational? y = some q) (hq : q ≠ 0) :
    rational? (x / y) = withinRange (toDouble (p / q)) := by
  have hmodel : x / y
      = .ofModel (.pack (UnpackedFloat.div Format.binary64 x.toModel.unpack y.toModel.unpack)) := rfl
  rw [hmodel]
  obtain ⟨t, hunpacky, rfl⟩ | ⟨t, n, f, hn, hunpacky, -, -, rfl⟩ := rational?_cases hy
  · exact absurd rfl hq
  obtain ⟨s, hunpackx, rfl⟩ | ⟨s, m, e, hm, hunpackx, -, -, rfl⟩ := rational?_cases hx <;>
    rw [hunpackx, hunpacky]
  · rw [zero_div, toDouble_zero, withinRange_zero]
    exact rational?_of_unpack (unpack_pack_zero _)
  · exact rational?_div_finite hm hn

end Operations

end FunctionGraph.Number
