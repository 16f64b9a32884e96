import FunctionGraph.Number.Binary
import FunctionGraph.Proofs.Number.Nearest
import Mathlib

/-!
# Doubles and their parts

What packing a sign, a mantissa and an exponent into a double keeps. The parts that unpacking gives are
in canonical form, and parts in canonical form come back unless the exponent is too large for a double.
-/

namespace FunctionGraph.Number

open Float.Model (UnpackedFloat Format)
open Float.Model.UnpackedFloat

/-- The mantissa has the 53 bits of a double, or fewer where the exponent is the least one. -/
structure IsCanonical (mantissa : ℕ) (exponent : ℤ) : Prop where
  lt : mantissa < 2 ^ 53
  least_le : -1074 ≤ exponent
  le : exponent = -1074 ∨ 2 ^ 52 ≤ mantissa

section Bits

variable {sign : Sign} {m : ℕ} {e : ℤ}

theorem toNat_implicit_append (mantissa : BitVec 52) :
    (1#1 ++ mantissa).toNat = 2 ^ 52 + mantissa.toNat := by
  rw [BitVec.toNat_append, ← Nat.shiftLeft_add_eq_or_of_lt mantissa.isLt]
  rfl

/-- What unpacking gives is canonical, and its exponent fits into a double. -/
theorem isCanonical_of_unpack {x : Float.Model} {hm : 0 < m}
    (h : x.unpack = .finite sign m e hm) : IsCanonical m e ∧ e ≤ 971 := by
  unfold Float.Model.unpack UnpackedFloat.unpack at h
  set exponent := @unpackExponent Format.binary64 x.toBits.toBitVec with hexponent
  set mantissa := @unpackMantissa Format.binary64 x.toBits.toBitVec with hmantissa
  have hlt : mantissa.toNat < 2 ^ 52 := mantissa.isLt
  simp only at h
  split at h
  · split at h <;> cases h
  · next hmax =>
    split at h
    · split at h
      · cases h
      · next hzero _ =>
        -- A subnormal number.
        simp only [hzero, UnpackedFloat.finite.injEq] at h
        obtain ⟨-, rfl, rfl⟩ := h
        exact ⟨⟨by omega, by decide, Or.inl (by decide)⟩, by decide⟩
    · next hzero =>
      simp only [UnpackedFloat.finite.injEq] at h
      obtain ⟨-, rfl, rfl⟩ := h
      have hpos : exponent.toNat ≠ 0 := fun h => hzero (BitVec.eq_of_toNat_eq h)
      have hless : exponent.toNat ≠ 2047 := fun h => hmax (BitVec.eq_of_toNat_eq h)
      have hbits : exponent.toNat < 2048 := exponent.isLt
      have hbias : (Format.binary64.exponentBias : ℤ) + Format.binary64.mantissaBitsWithoutImplicit
          = 1075 := by decide
      rw [hbias, toNat_implicit_append]
      exact ⟨⟨by omega, by omega, Or.inr (by omega)⟩, by omega⟩

@[simp]
theorem unpack_pack_zero (sign : Sign) :
    (Float.Model.pack (.zero sign)).unpack = .zero sign := by
  cases sign <;> rfl

theorem finite_congr {n : ℕ} {f : ℤ} {hm : 0 < m} {hn : 0 < n} (hmn : m = n) (hef : e = f) :
    UnpackedFloat.finite sign m e hm = .finite sign n f hn := by
  subst hmn hef
  rfl

theorem unpack_packComponents_normal {exponent : BitVec 11} {mantissa : BitVec 52} (hm : 0 < m)
    (hzero : exponent ≠ 0#11) (hmax : exponent ≠ -1#11) (hmantissa : 2 ^ 52 + mantissa.toNat = m)
    (he : exponent.toNat - 1075 = e) :
    UnpackedFloat.unpack Format.binary64 (packComponents Format.binary64 sign exponent mantissa)
      = .finite sign m e hm := by
  have hbias : (Format.binary64.exponentBias : ℤ) + Format.binary64.mantissaBitsWithoutImplicit
      = 1075 := by decide
  rw [UnpackedFloat.unpack]
  simp only [unpackExponent_packComponents, unpackMantissa_packComponents,
    unpackSign_packComponents, Sign.ofBitVec_toBitVec, if_neg hzero, if_neg hmax, hbias]
  exact finite_congr ((toNat_implicit_append mantissa).trans hmantissa) he

theorem unpack_packComponents_subnormal {mantissa : BitVec 52} (hm : 0 < m)
    (hmantissa : mantissa.toNat = m) :
    UnpackedFloat.unpack Format.binary64 (packComponents Format.binary64 sign 0#11 mantissa)
      = .finite sign m (-1074) hm := by
  have hnonzero : mantissa ≠ 0#52 := by
    rintro rfl
    rw [← hmantissa] at hm
    exact absurd hm (by decide)
  have hmax : (0#11 : BitVec 11) ≠ -1#11 := by decide
  rw [UnpackedFloat.unpack]
  simp only [unpackExponent_packComponents, unpackMantissa_packComponents,
    unpackSign_packComponents, Sign.ofBitVec_toBitVec, if_neg hmax, dif_neg hnonzero, if_true]
  exact finite_congr hmantissa (by decide)

theorem unpack_pack (hm : 0 < m) (hcanonical : IsCanonical m e) (he : e ≤ 971) :
    (Float.Model.pack (.finite sign m e hm)).unpack = .finite sign m e hm := by
  obtain ⟨hlt, hleast, hle⟩ := hcanonical
  have hbias : (e + (Format.binary64.exponentBias : ℤ)
      + Format.binary64.mantissaBitsWithoutImplicit).toNat = (e + 1075).toNat := by
    congr 1
    change e + 1023 + 52 = e + 1075
    omega
  have hfits : ¬2 ^ Format.binary64.exponentBits ≤ (e + 1075).toNat + 1 := by
    change ¬2048 ≤ _
    omega
  unfold Float.Model.unpack Float.Model.pack UnpackedFloat.pack
  simp only [hbias, if_neg hfits]
  have hlog : m.log2 + 1 = Format.binary64.mantissaBits ↔ 2 ^ 52 ≤ m := by
    change m.log2 + 1 = 53 ↔ _
    rw [← Nat.le_log2 (by omega)]
    have := (Nat.log2_lt (n := m) (k := 53) (by omega)).mpr hlt
    omega
  by_cases hnormal : 2 ^ 52 ≤ m
  · rw [if_pos (hlog.mpr hnormal)]
    have hexponent : (BitVec.ofNat 11 (e + 1075).toNat).toNat = (e + 1075).toNat := by
      rw [BitVec.toNat_ofNat, Nat.mod_eq_of_lt (by omega)]
    have hmantissa : (BitVec.ofNat 52 m).toNat = m - 2 ^ 52 := by
      rw [BitVec.toNat_ofNat]
      omega
    refine unpack_packComponents_normal hm (fun h => ?_) (fun h => ?_) ?_ ?_
    · rw [h] at hexponent
      change 0 = _ at hexponent
      omega
    · rw [h] at hexponent
      change 2047 = _ at hexponent
      omega
    · omega
    · omega
  · rw [if_neg (fun h => hnormal (hlog.mp h))]
    obtain rfl : e = -1074 := hle.resolve_right hnormal
    refine unpack_packComponents_subnormal hm ?_
    rw [BitVec.toNat_ofNat]
    omega

/-- A number that is too large is packed as an infinity. -/
theorem unpack_pack_large (hm : 0 < m) (he : 972 ≤ e) :
    (Float.Model.pack (.finite sign m e hm)).unpack = .infinity sign := by
  have hlarge : 2 ^ Format.binary64.exponentBits ≤ (e + (Format.binary64.exponentBias : ℤ)
      + Format.binary64.mantissaBitsWithoutImplicit).toNat + 1 := by
    change 2048 ≤ (e + 1023 + 52).toNat + 1
    omega
  unfold Float.Model.unpack Float.Model.pack UnpackedFloat.pack
  simp only [if_pos hlarge]
  cases sign <;> rfl

end Bits

end FunctionGraph.Number
