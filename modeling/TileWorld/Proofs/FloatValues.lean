import Mathlib.Algebra.Order.Floor.Semifield
import Mathlib.Data.Rat.Floor
import TileWorld.Clock
import TileWorld.Proofs.MachineFloats

/-! Singles and doubles by their patterns: arithmetic and conversions on numbers that are not
negative round the exact result once. -/
namespace TileWorld.Number

open Float.Model (UnpackedFloat)

theorem unpack_double (x : Float) : x.toModel.unpack = (doubleValue x).unpacked :=
  unpack_eq (S := .binary64) x.toBits.toBitVec

theorem unpack_single (x : Float32) : x.toModel.unpack = (singleValue x).unpacked :=
  unpack_eq (S := .binary32) x.toBits.toBitVec

theorem isNaN_iff (x : Float32) : x.isNaN = true ↔ x.toModel.unpack = .notANumber := by
  change x.toModel.unpack.isNaN = true ↔ _
  cases x.toModel.unpack <;> simp [UnpackedFloat.isNaN]

theorem unpack_add (x y : Float) : (x + y).toModel.unpack =
    UnpackedFloat.unpack .binary64 (UnpackedFloat.pack .binary64
      (UnpackedFloat.add .binary64 x.toModel.unpack y.toModel.unpack)) :=
  rfl

theorem unpack_sub (x y : Float) : (x - y).toModel.unpack =
    UnpackedFloat.unpack .binary64 (UnpackedFloat.pack .binary64
      (UnpackedFloat.sub .binary64 x.toModel.unpack y.toModel.unpack)) :=
  rfl

theorem unpack_mul (x y : Float) : (x * y).toModel.unpack =
    UnpackedFloat.unpack .binary64 (UnpackedFloat.pack .binary64
      (UnpackedFloat.mul .binary64 x.toModel.unpack y.toModel.unpack)) :=
  rfl

theorem unpack_double_cases {x : Float} (hx : x.toBits.toNat < Format.double.infinity) :
    x.toModel.unpack = .zero .positive ∨
      ∃ m e, ∃ hm : 0 < m, x.toModel.unpack = .finite .positive m e hm := by
  rcases unpack_cases (S := .binary64) (b := x.toBits.toBitVec) hx with
    ⟨h, -⟩ | ⟨m, e, hm, h, -⟩
  · exact Or.inl h
  · exact Or.inr ⟨m, e, hm, h⟩

theorem Format.signed_lt (F : Format) (negative : Bool) {p : ℕ} (hp : p ≤ F.infinity) :
    F.signed negative p < 2 * F.signBit := by
  have := F.infinity_lt_signBit
  rw [signed]
  split <;> omega

theorem toNat_doubleOfPattern (negative : Bool) {p : ℕ} (hp : p ≤ Format.double.infinity) :
    (doubleOfPattern (Format.double.signed negative p)).toBits.toNat =
      Format.double.signed negative p := by
  have hword : (UInt64.ofNat (Format.double.signed negative p)).toBitVec.toNat =
      Format.double.signed negative p :=
    Nat.mod_eq_of_lt (Format.double.signed_lt negative hp)
  have := toNat_pack_unpack (S := .binary64) (by decide) negative hword hp
  rw [hword] at this
  exact this

theorem toNat_singleOfPattern (negative : Bool) {p : ℕ} (hp : p ≤ Format.single.infinity) :
    (singleOfPattern (Format.single.signed negative p)).toBits.toNat =
      Format.single.signed negative p := by
  have hword : (UInt32.ofNat (Format.single.signed negative p)).toBitVec.toNat =
      Format.single.signed negative p :=
    Nat.mod_eq_of_lt (Format.single.signed_lt negative hp)
  have := toNat_pack_unpack (S := .binary32) (by decide) negative hword hp
  rw [hword] at this
  exact this

/-- The pattern nearest to a finite value. -/
theorem Format.encode_finite (F : Format) (negative : Bool) (m : ℕ) (e : ℤ) :
    F.encode (.finite negative m e) = F.signed negative (F.rounded (m * 2 ^ e)) := by
  have hpos : 0 < 1 <<< (-e).toNat := by
    rw [Nat.shiftLeft_eq]
    positivity
  have hquot := shifted_div m 1 (-e)
  rw [neg_neg, Nat.cast_one, div_one, zpow_neg, div_inv_eq_mul] at hquot
  rw [encode, nearest_eq_rounded _ hpos, hquot]

/-! ### Sums, differences and products -/

theorem toNat_add_double {x y : Float} (hx : x.toBits.toNat < Format.double.infinity)
    (hy : y.toBits.toNat < Format.double.infinity) :
    (x + y).toBits.toNat =
      Format.double.rounded (Format.double.rat x.toBits.toNat + Format.double.rat y.toBits.toNat) :=
  toNat_add (S := .binary64) (by decide) hx hy

theorem toNat_mul_double {x y : Float} (hx : x.toBits.toNat < Format.double.infinity)
    (hy : y.toBits.toNat < Format.double.infinity) :
    (x * y).toBits.toNat =
      Format.double.rounded (Format.double.rat x.toBits.toNat * Format.double.rat y.toBits.toNat) :=
  toNat_mul (S := .binary64) (by decide) hx hy

theorem toNat_sub_double {x y : Float} (hx : x.toBits.toNat < Format.double.infinity)
    (hle : y.toBits.toNat ≤ x.toBits.toNat) :
    (x - y).toBits.toNat =
      Format.double.rounded (Format.double.rat x.toBits.toNat - Format.double.rat y.toBits.toNat) :=
  toNat_sub (S := .binary64) (by decide) hx hle

/-! ### Conversions -/

theorem toNat_toFloat (n : UInt32) : n.toFloat.toBits.toNat = Format.double.rounded n.toNat := by
  have := toNat_pack_normalize (S := .binary64) (by decide) n.toNat 0
  rw [zpow_zero, mul_one] at this
  exact this

theorem singleValue_of_lt {x : Float32} (hx : x.toBits.toNat < Format.single.infinity) :
    singleValue x = .finite false (Format.single.decode x.toBits.toNat).1
      (Format.single.decode x.toBits.toNat).2 :=
  Format.value_finite false hx

theorem doubleValue_of_lt {x : Float} (hx : x.toBits.toNat < Format.double.infinity) :
    doubleValue x = .finite false (Format.double.decode x.toBits.toNat).1
      (Format.double.decode x.toBits.toNat).2 :=
  Format.value_finite false hx

theorem toNat_widen {x : Float32} (hx : x.toBits.toNat < Format.single.infinity) :
    (widen x).toBits.toNat = Format.double.rounded (Format.single.rat x.toBits.toNat) := by
  rw [widen, singleValue_of_lt hx, Format.encode_finite]
  exact toNat_doubleOfPattern false (Format.rounded_le_infinity _)

theorem toNat_narrow {x : Float} (hx : x.toBits.toNat < Format.double.infinity) :
    (narrow x).toBits.toNat = Format.single.rounded (Format.double.rat x.toBits.toNat) := by
  rw [narrow, doubleValue_of_lt hx, Format.encode_finite]
  exact toNat_singleOfPattern false (Format.rounded_le_infinity _)

theorem toNat_floor {x : Float} (hx : x.toBits.toNat < Format.double.infinity) :
    (floor x).toBits.toNat = Format.double.rounded (⌊Format.double.rat x.toBits.toNat⌋₊ : ℕ) := by
  have hrat : Format.double.rat x.toBits.toNat = (Format.double.decode x.toBits.toNat).1 *
      2 ^ (Format.double.decode x.toBits.toNat).2 := rfl
  have hself := Format.rounded_rat hx
  rw [floor, doubleValue_of_lt hx]
  generalize (Format.double.decode x.toBits.toNat).1 = m at hrat
  generalize (Format.double.decode x.toBits.toNat).2 = e at hrat
  simp only [Bool.false_eq_true, false_and, if_false, add_zero, Nat.shiftLeft_eq, one_mul]
  split
  next he =>
    have hunit : (2 : ℚ) ^ e = ((2 ^ (-e).toNat : ℕ) : ℚ)⁻¹ := by
      rw [zpow_eq_div, show e.toNat = 0 by omega, pow_zero, one_div]
      push_cast
      rfl
    have hwhole : ⌊Format.double.rat x.toBits.toNat⌋₊ = m / 2 ^ (-e).toNat := by
      rw [hrat, hunit, ← div_eq_mul_inv]
      exact Nat.floor_div_eq_div _ _
    have hencode := Format.double.encode_finite false (m / 2 ^ (-e).toNat) 0
    rw [hencode, hwhole, zpow_zero, mul_one]
    exact toNat_doubleOfPattern false (Format.rounded_le_infinity _)
  next he =>
    have hwhole : Format.double.rat x.toBits.toNat = ((m * 2 ^ e.toNat : ℕ) : ℚ) := by
      rw [hrat, zpow_eq_div, show (-e).toNat = 0 by omega, pow_zero, div_one]
      push_cast
      rfl
    rw [hwhole, Nat.floor_natCast, ← hwhole, hself]

/-- The whole part of a double is a double. -/
theorem rat_floor {x : Float} (hx : x.toBits.toNat < Format.double.infinity) :
    Format.double.rat (floor x).toBits.toNat = (⌊Format.double.rat x.toBits.toNat⌋₊ : ℕ) := by
  have hcanon := Format.double.canonical_decode x.toBits.toNat
  have hrat : Format.double.rat x.toBits.toNat = (Format.double.decode x.toBits.toNat).1 *
      2 ^ (Format.double.decode x.toBits.toNat).2 := rfl
  have hfloor := Nat.floor_le (Format.double.rat_nonneg x.toBits.toNat)
  have hfinite := (Format.rounded_le_of_le_rat (Nat.cast_nonneg _) hx hfloor).trans_lt hx
  rw [toNat_floor hx]
  rcases le_or_gt 0 (Format.double.decode x.toBits.toNat).2 with he | he
  · have hwhole : Format.double.rat x.toBits.toNat = (((Format.double.decode x.toBits.toNat).1 *
        2 ^ (Format.double.decode x.toBits.toNat).2.toNat : ℕ) : ℚ) := by
      rw [hrat]
      push_cast
      rw [← zpow_natCast, Int.toNat_of_nonneg he]
    have hself : ((⌊Format.double.rat x.toBits.toNat⌋₊ : ℕ) : ℚ) = Format.double.rat x.toBits.toNat := by
      rw [hwhole, Nat.floor_natCast]
    rw [hself, Format.rounded_rat hx]
  · -- Below the point there is nothing that could be lost above it.
    have hle : Format.double.rat x.toBits.toNat ≤ (Format.double.decode x.toBits.toNat).1 := by
      have : (2 : ℚ) ^ (Format.double.decode x.toBits.toNat).2 ≤ 1 :=
        zpow_le_one_of_nonpos₀ (by norm_num) he.le
      rw [hrat]
      exact mul_le_of_le_one_right (Nat.cast_nonneg _) this
    have hshort : ⌊Format.double.rat x.toBits.toNat⌋₊ < 2 ^ (Format.double.fractionBits + 1) :=
      (Nat.floor_le_of_le hle).trans_lt hcanon.below
    have hexact := Format.rat_rounded_of_short (k := 0) hshort (by decide)
    rw [zpow_zero, mul_one] at hexact
    exact hexact hfinite

/-! ### Comparisons -/

theorem single_lt_iff (x y : Float32) : x < y ↔ x.toModel.unpack.lt y.toModel.unpack = true :=
  decide_eq_true_iff

theorem single_le_iff (x y : Float32) : x ≤ y ↔ x.toModel.unpack.le y.toModel.unpack = true :=
  decide_eq_true_iff

theorem double_lt_iff (x y : Float) : x < y ↔ x.toModel.unpack.lt y.toModel.unpack = true :=
  decide_eq_true_iff

theorem double_le_iff {x y : Float} (hx : x.toBits.toNat < Format.double.infinity)
    (hy : y.toBits.toNat < Format.double.infinity) : x ≤ y ↔ x.toBits.toNat ≤ y.toBits.toNat :=
  decide_eq_true_iff.trans (le_iff_toNat_le (S := .binary64) hx hy)

theorem single_lt_iff_toNat_lt {x y : Float32} (hx : x.toBits.toNat < Format.single.infinity)
    (hy : y.toBits.toNat < Format.single.infinity) : x < y ↔ x.toBits.toNat < y.toBits.toNat :=
  (single_lt_iff x y).trans (lt_iff_toNat_lt (S := .binary32) hx hy)

theorem double_lt_iff_toNat_lt {x y : Float} (hx : x.toBits.toNat < Format.double.infinity)
    (hy : y.toBits.toNat < Format.double.infinity) : x < y ↔ x.toBits.toNat < y.toBits.toNat :=
  (double_lt_iff x y).trans (lt_iff_toNat_lt (S := .binary64) hx hy)

/-- A single that is a number and not below zero. -/
def IsNonneg (x : Float32) : Prop :=
  x.isFinite = true ∧ ¬ x < 0.0

theorem isNonneg_iff (x : Float32) :
    IsNonneg x ↔ x.toBits.toNat < Format.single.infinity ∨ x.toBits.toNat = Format.single.signBit := by
  rw [IsNonneg, single_lt_iff, Bool.not_eq_true]
  exact isFinite_and_not_lt_zero_iff (S := .binary32) x.toBits.toBitVec

theorem isFinite_and_not_neg_iff (x : Float) :
    (x.isFinite = true ∧ ¬ x < doubleOfInt 0) ↔
      x.toBits.toNat < Format.double.infinity ∨ x.toBits.toNat = Format.double.signBit := by
  rw [double_lt_iff, Bool.not_eq_true]
  exact isFinite_and_not_lt_zero_iff (S := .binary64) x.toBits.toBitVec

theorem zero_lt_single_iff (x : Float32) :
    0.0 < x ↔ 0 < x.toBits.toNat ∧ x.toBits.toNat ≤ Format.single.infinity := by
  rw [single_lt_iff]
  exact zero_lt_iff (S := .binary32) x.toBits.toBitVec

/-! ### Powers of two as bounds -/

theorem pattern_lt_infinity_double {k : ℕ} (hk : k ≤ 1000) :
    Format.double.pattern (k - 52 : ℤ) (2 ^ 52) < Format.double.infinity := by
  simp only [Format.pattern, Format.double, Format.minExponent, Format.infinity]
  omega

theorem rat_pattern_double (k : ℕ) :
    Format.double.rat (Format.double.pattern (k - 52 : ℤ) (2 ^ 52)) = 2 ^ k := by
  have hleast : Format.double.minExponent ≤ (k - 52 : ℤ) := by
    simp only [Format.double, Format.minExponent]
    omega
  have hrat := Format.rat_pattern (q := 2 ^ 52) hleast (by decide) (Or.inr le_rfl)
  rw [hrat, Nat.cast_pow, Nat.cast_ofNat, ← zpow_natCast, ← zpow_natCast, ← zpow_add₀ two_ne_zero]
  congr 1
  omega

theorem rounded_le_double {y : ℚ} (hy : 0 ≤ y) {k : ℕ} (hk : k ≤ 1000) (h : y ≤ 2 ^ k) :
    Format.double.rounded y < Format.double.infinity ∧
      Format.double.rat (Format.double.rounded y) ≤ 2 ^ k := by
  have hp := pattern_lt_infinity_double hk
  have hle := Format.rounded_le_of_le_rat hy hp (h.trans_eq (rat_pattern_double k).symm)
  refine ⟨hle.trans_lt hp, ?_⟩
  rw [← rat_pattern_double k]
  exact Format.rat_le_rat hp hle

end TileWorld.Number
