import FunctionGraph.Proofs.Number.Conversion
import FunctionGraph.Proofs.Number.Reach
import FunctionGraph.Proofs.Number.Truncation

/-!
# Signs of results

A double has a sign even where it stands for no number but an infinity, or for zero. Digits are
converted to doubles without a minus sign. What has the same sign can be added without leaving the
numbers, so what reading makes of two such doubles is never NaN.
-/

namespace FunctionGraph.Number

open Float.Model (UnpackedFloat Format)
open Float.Model.UnpackedFloat

def signOf? : UnpackedFloat → Option Sign
  | .infinity s | .zero s | .finite s _ _ _ => some s
  | .notANumber => none

/-- The sign of a double. NaN has none. -/
def HasSign (s : Sign) (x : Float) : Prop :=
  signOf? x.toModel.unpack = some s

/-! ### Packing -/

section Packing

variable {s : Sign}

/-- A word is put together from its three fields. -/
theorem packComponents_fields (bits : BitVec Format.binary64.numBits) :
    packComponents Format.binary64 (Sign.ofBitVec (unpackSign bits)) (unpackExponent bits)
      (unpackMantissa bits) = bits := by
  have hsign : ∀ b : BitVec 1, (Sign.ofBitVec b).toBitVec = b := by decide
  rw [packComponents, hsign]
  simp only [unpackSign, unpackExponent, unpackMantissa, BitVec.extractLsb]
  ext i hi
  grind

theorem packComponents_eq {bits : BitVec Format.binary64.numBits}
    {exponent : BitVec Format.binary64.exponentBits}
    {mantissa : BitVec Format.binary64.mantissaBitsWithoutImplicit}
    (hexponent : unpackExponent bits = exponent) (hmantissa : unpackMantissa bits = mantissa) :
    packComponents Format.binary64 (Sign.ofBitVec (unpackSign bits)) exponent mantissa = bits := by
  subst hexponent hmantissa
  exact packComponents_fields bits

theorem signOf?_unpack_packComponents {exponent : BitVec 11} (h : exponent ≠ -1#11)
    (mantissa : BitVec 52) :
    signOf? (UnpackedFloat.unpack Format.binary64 (packComponents Format.binary64 s exponent mantissa))
      = some s := by
  rw [UnpackedFloat.unpack]
  simp only [unpackExponent_packComponents, unpackMantissa_packComponents,
    unpackSign_packComponents, Sign.ofBitVec_toBitVec, if_neg h]
  split
  · split <;> rfl
  · rfl

/-- Packing keeps the sign, whatever becomes of the rest. -/
theorem signOf?_unpack_pack (u : UnpackedFloat) :
    signOf? (Float.Model.pack u).unpack = signOf? u := by
  cases u with
  | notANumber => rfl
  | infinity s => rw [unpack_pack_infinity]
  | zero s => rw [unpack_pack_zero]
  | finite s m e hm =>
    unfold Float.Model.unpack Float.Model.pack UnpackedFloat.pack
    simp only
    split
    · cases s <;> rfl
    · next hfits =>
      have hfits : (e + (Format.binary64.exponentBias : ℤ)
          + Format.binary64.mantissaBitsWithoutImplicit).toNat + 1 < 2048 := not_le.mp hfits
      split
      · refine signOf?_unpack_packComponents (fun hmax => ?_) _
        have hmax' := congrArg BitVec.toNat hmax
        rw [BitVec.toNat_ofNat] at hmax'
        change _ % 2048 = 2047 at hmax'
        omega
      · exact signOf?_unpack_packComponents (by decide) _

theorem hasSign_pack {u : UnpackedFloat} (h : signOf? u = some s) : HasSign s (.ofModel (.pack u)) :=
  (signOf?_unpack_pack u).trans h

theorem pack_unpack_bits {bits : BitVec Format.binary64.numBits} (hvalid : Format.binary64.Valid bits) :
    UnpackedFloat.pack Format.binary64 (UnpackedFloat.unpack Format.binary64 bits) = bits := by
  have hmantissa : (unpackMantissa bits).toNat < 2 ^ 52 := (unpackMantissa bits).isLt
  have hbias : (Format.binary64.exponentBias : ℤ) = 1023 := rfl
  have hwidth : (Format.binary64.mantissaBitsWithoutImplicit : ℤ) = 52 := rfl
  have hbits : Format.binary64.mantissaBits = 53 := rfl
  rw [UnpackedFloat.unpack]
  simp only
  split
  · next hmax =>
    split
    · next hzero => exact packComponents_eq hmax hzero
    · next hnan => exact (hvalid.eq_packedNaN hmax hnan).symm
  · next hmax =>
    split
    · next hexponent =>
      split
      · next hzero => exact packComponents_eq hexponent hzero
      · next hnonzero =>
        -- A subnormal number has too few bits for the implicit one.
        have hpos : (unpackMantissa bits).toNat ≠ 0 := fun h => hnonzero (BitVec.eq_of_toNat_eq h)
        have hlog : ¬(unpackMantissa bits).toNat.log2 + 1 = Format.binary64.mantissaBits := by
          have := (Nat.log2_lt hpos).mpr hmantissa
          omega
        rw [hexponent, UnpackedFloat.pack]
        simp only
        rw [if_neg (by decide), if_neg hlog, BitVec.ofNat_toNat, BitVec.setWidth_eq]
        exact packComponents_eq hexponent rfl
    · next hexponent =>
      have hlt : (unpackExponent bits).toNat < 2048 := (unpackExponent bits).isLt
      have hnotmax : (unpackExponent bits).toNat ≠ 2047 := fun h => hmax (BitVec.eq_of_toNat_eq h)
      have happend := toNat_implicit_append (unpackMantissa bits)
      have hlog : (1#1 ++ unpackMantissa bits).toNat.log2 + 1 = Format.binary64.mantissaBits := by
        rw [happend]
        have hle := (Nat.le_log2 (n := 2 ^ 52 + (unpackMantissa bits).toNat) (k := 52) (by omega)).mpr
          (by omega)
        have hlt := (Nat.log2_lt (n := 2 ^ 52 + (unpackMantissa bits).toNat) (k := 53) (by omega)).mpr
          (by omega)
        omega
      have hbiased : ((unpackExponent bits).toNat - ((Format.binary64.exponentBias : ℤ)
          + Format.binary64.mantissaBitsWithoutImplicit) + Format.binary64.exponentBias
          + Format.binary64.mantissaBitsWithoutImplicit).toNat = (unpackExponent bits).toNat := by
        omega
      have hfits : ¬2 ^ Format.binary64.exponentBits ≤ (unpackExponent bits).toNat + 1 := by
        change ¬2048 ≤ _
        omega
      have hlow : BitVec.ofNat 52 (1#1 ++ unpackMantissa bits).toNat = unpackMantissa bits := by
        refine BitVec.eq_of_toNat_eq ?_
        rw [happend, BitVec.toNat_ofNat]
        omega
      rw [UnpackedFloat.pack]
      simp only
      rw [hbiased, if_neg hfits, if_pos hlog, BitVec.ofNat_toNat, BitVec.setWidth_eq]
      exact packComponents_eq rfl hlow.symm

/-- A double is given back by its parts. -/
theorem ofModel_pack_unpack (x : Float) : Float.ofModel (.pack x.toModel.unpack) = x := by
  obtain ⟨⟨⟨bits⟩, hvalid⟩⟩ := x
  unfold Float.Model.pack Float.Model.unpack
  simp only [pack_unpack_bits hvalid]

end Packing

section Signs

variable {x y : Float} {s t : Sign} {p q : ℚ} {u v : UnpackedFloat}

theorem HasSign.isNaN_eq_false (h : HasSign s x) : x.isNaN = false := by
  cases hnan : x.isNaN with
  | false => rfl
  | true =>
    rw [HasSign, isNaN_iff_unpack.mp hnan] at h
    cases h

/-- A double of a sign that is no finite number is the infinity of that sign. -/
theorem HasSign.isInfinite (h : HasSign s x) (hx : rational? x = none) : IsInfinite s x := by
  rw [HasSign] at h
  rw [rational?] at hx
  rw [IsInfinite]
  cases hunpack : x.toModel.unpack with
  | notANumber => rw [hunpack] at h; cases h
  | infinity t => rw [hunpack] at h; rw [← Option.some.inj h]
  | zero t => rw [hunpack] at hx; cases hx
  | finite t m e hm => rw [hunpack] at hx; cases hx

theorem signOf?_neg (h : signOf? u = some s) : signOf? u.neg = some (-s) := by
  cases u <;> cases h <;> rfl

theorem HasSign.neg (h : HasSign s x) : HasSign (-s) (-x) :=
  hasSign_pack (signOf?_neg h)

theorem signOf?_ofMantissa (s : Sign) (m : ℕ) (e : ℤ) : signOf? (ofMantissa s m e) = some s := by
  rw [ofMantissa]
  split <;> rfl

theorem signOf?_roundWithAccuracy (s : Sign) (m : ℕ) (e : ℤ) (accuracy : Accuracy) :
    signOf? (roundWithAccuracy Format.binary64 s m e accuracy) = some s :=
  signOf?_ofMantissa s _ _

theorem signOf?_normalize {k : ℤ} (hk : 0 < k) (e : ℤ) (s zero : Sign) :
    signOf? (UnpackedFloat.normalize Format.binary64 (s.apply k) e zero) = some s := by
  cases s
  · have hcompare : compare (Sign.negative.apply k) 0 = .lt := compare_lt_iff_lt.mpr (neg_lt_zero.mpr hk)
    rw [UnpackedFloat.normalize, hcompare]
    exact signOf?_roundWithAccuracy _ _ _ _
  · have hcompare : compare (Sign.positive.apply k) 0 = .gt := compare_gt_iff_gt.mpr hk
    rw [UnpackedFloat.normalize, hcompare]
    exact signOf?_roundWithAccuracy _ _ _ _

theorem signOf?_add (hu : signOf? u = some s) (hv : signOf? v = some s) :
    signOf? (UnpackedFloat.add Format.binary64 u v) = some s := by
  cases u <;> cases v <;> cases hu <;> cases hv
  case finite.finite m e hm n f hn =>
    have happly : ∀ a b : ℤ, s.apply a + s.apply b = s.apply (a + b) := by
      intro a b
      cases s
      · exact (neg_add a b).symm
      · rfl
    have hpos : ∀ {k : ℕ} (d : ℤ), 0 < k → 0 < (decreaseExponent k d (min e f)).1 := by
      intro k d hk
      rw [decreaseExponent, Nat.shiftLeft_eq]
      positivity
    simp only [UnpackedFloat.add, happly]
    exact signOf?_normalize (by exact_mod_cast Nat.add_pos_left (hpos e hm) _) _ _ _
  all_goals cases s <;> rfl

theorem signOf?_mul_finite {m n : ℕ} {e f : ℤ} {hm : 0 < m} {hn : 0 < n} :
    signOf? (UnpackedFloat.mul Format.binary64 (.finite s m e hm) (.finite t n f hn)) = some (s * t) :=
  signOf?_roundWithAccuracy _ _ _ _

theorem signOf?_div_finite {m n : ℕ} {e f : ℤ} {hm : 0 < m} {hn : 0 < n} :
    signOf? (UnpackedFloat.div Format.binary64 (.finite s m e hm) (.finite t n f hn)) = some (s / t) :=
  signOf?_roundWithAccuracy _ _ _ _

theorem HasSign.add (hx : HasSign s x) (hy : HasSign s y) : HasSign s (x + y) :=
  hasSign_pack (signOf?_add hx hy)

theorem HasSign.sub (hx : HasSign s x) (hy : HasSign (-s) y) : HasSign s (x - y) := by
  have hneg : - -s = s := by cases s <;> rfl
  refine hasSign_pack (u := UnpackedFloat.sub Format.binary64 x.toModel.unpack y.toModel.unpack) ?_
  rw [unpacked_sub_eq_add_neg]
  exact signOf?_add hx (hneg ▸ signOf?_neg hy)

theorem HasSign.mul (hx : HasSign s x) (hy : HasSign t y) (hp : rational? x = some p)
    (hq : rational? y = some q) : HasSign (s * t) (x * y) := by
  refine hasSign_pack (u := UnpackedFloat.mul Format.binary64 x.toModel.unpack y.toModel.unpack) ?_
  rw [HasSign] at hx hy
  obtain ⟨s', hunpackx, -⟩ | ⟨s', m, e, hm, hunpackx, -⟩ := rational?_cases hp <;>
    obtain ⟨t', hunpacky, -⟩ | ⟨t', n, f, hn, hunpacky, -⟩ := rational?_cases hq <;>
    rw [hunpackx] at hx ⊢ <;> rw [hunpacky] at hy ⊢ <;> cases hx <;> cases hy
  case inr.inr => exact signOf?_mul_finite
  all_goals rfl

theorem HasSign.div (hx : HasSign s x) (hy : HasSign t y) (hp : rational? x = some p)
    (hq : rational? y = some q) (hne : q ≠ 0) : HasSign (s / t) (x / y) := by
  refine hasSign_pack (u := UnpackedFloat.div Format.binary64 x.toModel.unpack y.toModel.unpack) ?_
  rw [HasSign] at hx hy
  obtain ⟨t', -, rfl⟩ | ⟨t', n, f, hn, hunpacky, -⟩ := rational?_cases hq
  · exact absurd rfl hne
  obtain ⟨s', hunpackx, -⟩ | ⟨s', m, e, hm, hunpackx, -⟩ := rational?_cases hp <;>
    rw [hunpackx] at hx ⊢ <;> rw [hunpacky] at hy ⊢ <;> cases hx <;> cases hy
  · rfl
  · exact signOf?_div_finite

end Signs

/-! ### Digits -/

/-- The double without a minus sign that a number is rounded to, which is the infinity where the number
is out of range. -/
structure IsConversion (q : ℚ) (x : Float) : Prop where
  rounding : IsRounding q x
  sign : HasSign .positive x

section Conversions

variable {x : Float} {q : ℚ}

theorem isConversion_of_rational? (hvalue : rational? x = withinRange (toDouble q)) (hq : 0 ≤ q)
    (hsign : HasSign .positive x) : IsConversion q x := by
  refine ⟨?_, hsign⟩
  have hnonneg : 0 ≤ toDouble q := le_toDouble isDouble_zero hq
  by_cases hsmall : |toDouble q| < 2 ^ (1024 : ℤ)
  · exact Or.inl (hvalue.trans (if_pos hsmall))
  · refine Or.inr ⟨.positive, hsign.isInfinite (hvalue.trans (if_neg hsmall)), ?_⟩
    rwa [abs_of_nonneg hnonneg, not_lt] at hsmall

theorem hasSign_toFloat (n : UInt64) : HasSign .positive n.toFloat := by
  refine hasSign_pack (u := UnpackedFloat.normalize Format.binary64 (n.toNat : ℤ) 0 .positive) ?_
  rcases Nat.eq_zero_or_pos n.toNat with hzero | hpos
  · rw [hzero]
    rfl
  · exact signOf?_normalize (k := n.toNat) (by exact_mod_cast hpos) 0 .positive .positive

theorem hasSign_powersOfTen : ∀ x ∈ Float.exactlyRepresentablePowersOfTen, HasSign .positive x := by
  intro x hx
  rw [← Array.mem_toList_iff] at hx
  fin_cases hx <;> rfl

theorem signOf?_ofScientific (n : ℕ) (e : ℤ) :
    signOf? (UnpackedFloat.ofScientific Format.binary64 n e) = some .positive := by
  rw [UnpackedFloat.ofScientific]
  split
  · rfl
  split
  · rfl
  split
  · rfl
  split
  · exact signOf?_mul_finite
  · exact signOf?_div_finite

theorem hasSign_ofScientific (n : ℕ) (negative : Bool) (k : ℕ) :
    HasSign .positive (Float.ofScientific n negative k) := by
  rw [Float.ofScientific]
  split
  · next hfast =>
    have hsize : Float.exactlyRepresentablePowersOfTen.size = 23 := rfl
    have hlt : k < Float.exactlyRepresentablePowersOfTen.size := by omega
    have hsign := hasSign_toFloat n.toUInt64
    have hpower := hasSign_powersOfTen _ (Array.getElem_mem hlt)
    have hvalue := rational?_toFloat_exact hfast.1
    have hten := rational?_powerOfTen ⟨k, hlt⟩
    split
    · exact hsign.div hpower hvalue hten (by positivity)
    · exact hsign.mul hpower hvalue hten
  · exact hasSign_pack (signOf?_ofScientific n _)

theorem isConversion_whole (n : ℕ) : IsConversion n (Float.ofScientific n false 0) :=
  isConversion_of_rational? (rational?_ofScientific_whole n) (Nat.cast_nonneg n)
    (hasSign_ofScientific n false 0)

theorem isConversion_fraction (n k : ℕ) : IsConversion (n / 10 ^ k) (Float.ofScientific n true k) :=
  isConversion_of_rational? (rational?_ofScientific_fraction n k) (by positivity)
    (hasSign_ofScientific n true k)

/-- Adding the zero of its own sign gives a double back, the zero and the infinity included. -/
theorem HasSign.add_zero {y : Float} {s : Sign} (hx : HasSign s x) (hy : y.toModel.unpack = .zero s) :
    x + y = x := by
  have hmodel : x + y
      = .ofModel (.pack (UnpackedFloat.add Format.binary64 x.toModel.unpack y.toModel.unpack)) := rfl
  have hsame : UnpackedFloat.add Format.binary64 x.toModel.unpack (.zero s) = x.toModel.unpack := by
    rw [HasSign] at hx
    cases hunpack : x.toModel.unpack <;> rw [hunpack] at hx <;> cases hx
    case zero => cases s <;> rfl
    all_goals rfl
  rw [hmodel, hy, hsame, ofModel_pack_unpack]

theorem HasSign.sub_zero {y : Float} {s : Sign} (hx : HasSign s x) (hy : y.toModel.unpack = .zero (-s)) :
    x - y = x := by
  have hneg : x - y = x + -y := sub_eq_add_neg_of_rational? x (q := 0) (rational?_of_unpack hy)
  refine hneg.trans (hx.add_zero ?_)
  rw [unpack_neg (p := 0) (rational?_of_unpack hy), hy]
  cases s <;> rfl

end Conversions

end FunctionGraph.Number
