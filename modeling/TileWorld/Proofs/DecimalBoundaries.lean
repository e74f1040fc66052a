import Mathlib.Algebra.Order.Field.Power
import Mathlib.Tactic.FieldSimp
import Mathlib.Tactic.Linarith
import Mathlib.Tactic.LinearCombination
import Mathlib.Tactic.Positivity
import Mathlib.Tactic.Ring
import TileWorld.Proofs.Rounding

/-! How near short decimals come to the middles between singles. The two are multiples of a power of
ten and of a power of two, and the quotient of those powers, closed in between two fractions, tells
how near multiples can be without being equal. -/
namespace TileWorld.Number

/-- Two fractions around a third one, with what is missing to it. -/
structure Bracket where
  q₀ : ℕ
  p₀ : ℕ
  r₀ : ℕ
  q₁ : ℕ
  p₁ : ℕ
  r₁ : ℕ

namespace Bracket

/-- Neighbours `p₀ / q₀ ≤ a / d ≤ p₁ / q₁` between which every fraction has a denominator above
`limit`. -/
structure Around (b : Bracket) (a d limit : ℕ) : Prop where
  lower : b.q₀ * a = b.p₀ * d + b.r₀
  upper : b.q₁ * a + b.r₁ = b.p₁ * d
  neighbours : b.q₀ * b.p₁ = b.p₀ * b.q₁ + 1
  pos₀ : 0 < b.q₀
  pos₁ : 0 < b.q₁
  wide : limit < b.q₀ + b.q₁

/-- Short multiples of `a` keep their distance from the multiples of `d`, but for the multiples of the
two fractions themselves. -/
theorem Around.distance {b : Bracket} {a d limit : ℕ} (h : b.Around a d limit) {c n : ℕ}
    (hc : c ≤ limit) :
    (∃ x : ℕ, n = x * b.p₀ ∧ (c * a - n * d : ℤ) = x * b.r₀) ∨
      (∃ x : ℕ, n = x * b.p₁ ∧ (n * d - c * a : ℤ) = x * b.r₁) ∨
      (b.r₀ + b.r₁ : ℤ) ≤ |(c * a - n * d : ℤ)| := by
  obtain ⟨hlower, hupper, hdet, hpos₀, hpos₁, hwide⟩ := h
  zify at hlower hupper hdet hpos₀ hpos₁ hwide hc
  -- The coordinates of `(c, n)` in the basis that the two fractions form.
  obtain ⟨x, hx⟩ : ∃ x : ℤ, x = c * b.p₁ - n * b.q₁ := ⟨_, rfl⟩
  obtain ⟨y, hy⟩ : ∃ y : ℤ, y = n * b.q₀ - c * b.p₀ := ⟨_, rfl⟩
  have hcxy : (c : ℤ) = x * b.q₀ + y * b.q₁ := by
    rw [hx, hy]
    linear_combination -(c : ℤ) * hdet
  have hnxy : (n : ℤ) = x * b.p₀ + y * b.p₁ := by
    rw [hx, hy]
    linear_combination -(n : ℤ) * hdet
  have hdist : (c * a - n * d : ℤ) = x * b.r₀ - y * b.r₁ := by
    rw [hcxy, hnxy]
    linear_combination x * hlower + y * hupper
  have hr₀ : (0 : ℤ) ≤ b.r₀ := Int.natCast_nonneg _
  have hr₁ : (0 : ℤ) ≤ b.r₁ := Int.natCast_nonneg _
  have hc₀ : (0 : ℤ) ≤ c := Int.natCast_nonneg _
  rcases lt_trichotomy y 0 with hy₀ | rfl | hy₀
  · have hx₀ : 1 ≤ x := by
      by_contra hneg
      have : (x : ℤ) * b.q₀ ≤ 0 := mul_nonpos_of_nonpos_of_nonneg (by omega) hpos₀.le
      have : y * b.q₁ < 0 := mul_neg_of_neg_of_pos hy₀ hpos₁
      omega
    refine Or.inr (Or.inr (le_trans ?_ (le_abs_self _)))
    have : (1 : ℤ) * b.r₀ ≤ x * b.r₀ := mul_le_mul_of_nonneg_right hx₀ hr₀
    have : (1 : ℤ) * b.r₁ ≤ -y * b.r₁ := mul_le_mul_of_nonneg_right (by omega) hr₁
    linarith
  · have hx₀ : 0 ≤ x := by
      by_contra hneg
      have : (x : ℤ) * b.q₀ < 0 := mul_neg_of_neg_of_pos (by omega) hpos₀
      omega
    refine Or.inl ⟨x.toNat, ?_, ?_⟩
    · zify
      rw [Int.toNat_of_nonneg hx₀]
      linarith
    · rw [Int.toNat_of_nonneg hx₀]
      linarith
  · -- Beyond both fractions the multiple of `a` would not be short.
    have hx₀ : x ≤ 0 := by
      by_contra hneg
      have : (1 : ℤ) * b.q₀ ≤ x * b.q₀ := mul_le_mul_of_nonneg_right (by omega) hpos₀.le
      have : (1 : ℤ) * b.q₁ ≤ y * b.q₁ := mul_le_mul_of_nonneg_right hy₀ hpos₁.le
      omega
    rcases hx₀.eq_or_lt with rfl | hx₁
    · refine Or.inr (Or.inl ⟨y.toNat, ?_, ?_⟩)
      · zify
        rw [Int.toNat_of_nonneg hy₀.le]
        linarith
      · rw [Int.toNat_of_nonneg hy₀.le]
        linarith
    · refine Or.inr (Or.inr (le_trans ?_ (neg_le_abs _)))
      have : (1 : ℤ) * b.r₀ ≤ -x * b.r₀ := mul_le_mul_of_nonneg_right (by omega) hr₀
      have : (1 : ℤ) * b.r₁ ≤ y * b.r₁ := mul_le_mul_of_nonneg_right hy₀ hr₁
      linarith

/-- Moves the fractions nearer, in turns, as long as their denominators stay within the limit. -/
def narrow (limit : ℕ) : ℕ → Bracket → Bracket
  | 0, b => b
  | fuel + 1, b =>
    if limit < b.q₀ + b.q₁ then b
    else if b.r₁ ≤ b.r₀ then
      let k := if b.r₁ = 0 then (limit - b.q₀) / b.q₁ else min ((limit - b.q₀) / b.q₁) (b.r₀ / b.r₁)
      narrow limit fuel ⟨b.q₀ + k * b.q₁, b.p₀ + k * b.p₁, b.r₀ - k * b.r₁, b.q₁, b.p₁, b.r₁⟩
    else
      let k := if b.r₀ = 0 then (limit - b.q₁) / b.q₀ else min ((limit - b.q₁) / b.q₀) (b.r₁ / b.r₀)
      narrow limit fuel ⟨b.q₀, b.p₀, b.r₀, b.q₁ + k * b.q₀, b.p₁ + k * b.p₀, b.r₁ - k * b.r₀⟩

/-- Neighbours around `a / d`. -/
def around (a d limit : ℕ) : Bracket :=
  narrow limit 64 ⟨1, a / d, a % d, 0, 1, d⟩

end Bracket

/-! ### The powers of ten and two -/

/-- Numerator of `10 ^ g / 2 ^ k`. -/
def decimalNum (g k : ℤ) : ℕ :=
  10 ^ g.toNat * 2 ^ (-k).toNat

/-- Denominator of `10 ^ g / 2 ^ k`. -/
def decimalDen (g k : ℤ) : ℕ :=
  10 ^ (-g).toNat * 2 ^ k.toNat

/-- The least power of ten that is not clearly below `2 ^ k`. -/
def leastGrid (k : ℤ) : ℤ :=
  let g := k * 1233 / 4096
  if 2 ^ 29 * decimalDen g k ≤ 2 ^ 29 * decimalNum g k + decimalDen g k then g else g + 1

/-- The one odd multiple of half a unit that an odd significand's decimal nearly meets. -/
def nearMiss : ℕ :=
  22841339

/-- A fraction whose odd multiples are no middles, or meet them, or keep away from them. -/
def Harmless (r p d : ℕ) : Prop :=
  r = 0 ∨ d < 2 ^ 29 * r ∨ p % 2 = 0 ∨ 2 ^ 25 ≤ p

instance (r p d : ℕ) : Decidable (Harmless r p d) :=
  inferInstanceAs (Decidable (_ ∨ _))

/-- What has to be known of a power of two: below which power of ten it is, and a bracket around the
quotient of the two. -/
def Certified (k : ℤ) : Prop :=
  let g := leastGrid k
  let a := decimalNum g k
  let d := decimalDen g k
  let b := Bracket.around a d (2 ^ 26)
  2 ^ 29 * d ≤ 2 ^ 29 * a + d ∧
    2 ^ 29 * decimalNum (g - 1) k + decimalDen (g - 1) k < 2 ^ 29 * decimalDen (g - 1) k ∧
    b.q₀ * a = b.p₀ * d + b.r₀ ∧ b.q₁ * a + b.r₁ = b.p₁ * d ∧ b.q₀ * b.p₁ = b.p₀ * b.q₁ + 1 ∧
    0 < b.q₀ ∧ 0 < b.q₁ ∧ 2 ^ 26 < b.q₀ + b.q₁ ∧ d < 2 ^ 29 * (b.r₀ + b.r₁) ∧
    Harmless b.r₀ b.p₀ d ∧ (Harmless b.r₁ b.p₁ d ∨ (k = -108 ∨ k = -107) ∧ b.p₁ = nearMiss)

instance (k : ℤ) : Decidable (Certified k) :=
  inferInstanceAs (Decidable (_ ∧ _))

theorem certified_of_single : ∀ i < 254, Certified ((i : ℕ) - 150 : ℤ) := by
  decide +kernel

theorem decimalNum_div_decimalDen (g k : ℤ) :
    (decimalNum g k / decimalDen g k : ℚ) = 10 ^ g / 2 ^ k := by
  rw [zpow_eq_div 10 g, zpow_eq_div 2 k, decimalNum, decimalDen]
  push_cast
  field_simp

theorem decimalDen_pos (g k : ℤ) : (0 : ℚ) < decimalDen g k := by
  rw [decimalDen]
  positivity

/-- A fraction that is harmless has no odd multiple near a middle, other than the middle itself. -/
theorem Harmless.eq_zero {r p d x m : ℕ} (h : Harmless r p d) (hodd : m % 2 = 1) (hm : m < 2 ^ 25)
    (hx : m = x * p) (hnear : 2 ^ 29 * (x * r) ≤ d) : r = 0 := by
  have hpos : 0 < x := Nat.pos_of_ne_zero (by rintro rfl; omega)
  rcases h with h | h | h | h
  · exact h
  · have := Nat.le_mul_of_pos_left r hpos
    omega
  · have : m % 2 = 0 := by rw [hx, Nat.mul_mod, h, mul_zero, Nat.zero_mod]
    omega
  · have := Nat.le_mul_of_pos_left p hpos
    omega

theorem eq_nearMiss {x m : ℕ} (hx : m = x * nearMiss) (hodd : m % 2 = 1) (hm : m < 2 ^ 25) :
    m = nearMiss := by
  have htwice : 2 ^ 25 ≤ 2 * nearMiss := by decide
  have hlt : x < 2 := by
    by_contra hge
    have := Nat.mul_le_mul_right nearMiss (not_lt.mp hge)
    omega
  have hcases : x = 0 ∨ x = 1 := by omega
  rcases hcases with rfl | rfl
  · omega
  · rw [hx, one_mul]

/-- In whole numbers: near multiples are equal, but for the exception. -/
theorem Certified.eq_of_near {k : ℤ} (h : Certified k) {c m : ℕ} (hodd : m % 2 = 1) (hm : m < 2 ^ 25)
    (hnear : 2 ^ 29 * |(c * decimalNum (leastGrid k) k - m * decimalDen (leastGrid k) k : ℤ)| ≤
      decimalDen (leastGrid k) k) :
    c * decimalNum (leastGrid k) k = m * decimalDen (leastGrid k) k ∨
      (k = -108 ∨ k = -107) ∧ m = nearMiss := by
  obtain ⟨hgrid, -, hlower, hupper, hdet, hpos₀, hpos₁, hwide, hgap, hleft, hright⟩ := h
  have hden : 0 < decimalDen (leastGrid k) k := by
    rw [decimalDen]
    positivity
  generalize decimalNum (leastGrid k) k = a at *
  generalize decimalDen (leastGrid k) k = d at *
  generalize Bracket.around a d (2 ^ 26) = b at *
  have hshort : c ≤ 2 ^ 26 := by
    have hle : (2 ^ 29 * (c * a) : ℤ) ≤ 2 ^ 29 * (m * d) + d := by
      have := le_abs_self (c * a - m * d : ℤ)
      linarith
    have hle' : c * (2 ^ 29 * a) ≤ (2 ^ 29 * m + 1) * d := by
      zify
      linarith
    have hmul : c * 2 ^ 29 * d ≤ (2 ^ 29 * m + 1 + c) * d := by
      calc c * 2 ^ 29 * d = c * (2 ^ 29 * d) := by ring
        _ ≤ c * (2 ^ 29 * a + d) := by gcongr
        _ = c * (2 ^ 29 * a) + c * d := by ring
        _ ≤ (2 ^ 29 * m + 1) * d + c * d := by gcongr
        _ = (2 ^ 29 * m + 1 + c) * d := by ring
    have := Nat.le_of_mul_le_mul_right hmul hden
    omega
  rcases Bracket.Around.distance ⟨hlower, hupper, hdet, hpos₀, hpos₁, hwide⟩ hshort (n := m) with
    ⟨x, hx, hdist⟩ | ⟨x, hx, hdist⟩ | hdist
  · rw [hdist, abs_of_nonneg (by positivity)] at hnear
    have hzero := hleft.eq_zero hodd hm hx (by exact_mod_cast hnear)
    rw [hzero, Nat.cast_zero, mul_zero, sub_eq_zero] at hdist
    exact Or.inl (by exact_mod_cast hdist)
  · rcases hright with hright | ⟨hk, hmiss⟩
    · rw [abs_sub_comm, hdist, abs_of_nonneg (by positivity)] at hnear
      have hzero := hright.eq_zero hodd hm hx (by exact_mod_cast hnear)
      rw [hzero, Nat.cast_zero, mul_zero, sub_eq_zero] at hdist
      exact Or.inl (by exact_mod_cast hdist.symm)
    · rw [hmiss] at hx
      exact Or.inr ⟨hk, eq_nearMiss hx hodd hm⟩
  · have hgap' : (d : ℤ) < 2 ^ 29 * (b.r₀ + b.r₁) := by exact_mod_cast hgap
    linarith only [hgap', hdist, hnear]

/-- A power of ten that is not clearly below `2 ^ k` lies on the least such grid. -/
theorem Certified.leastGrid_le {k g : ℤ} (h : Certified k)
    (hg : (2 ^ 29 * 2 ^ k : ℚ) ≤ 2 ^ 29 * 10 ^ g + 2 ^ k) : leastGrid k ≤ g := by
  have hbelow := h.2.1
  have hfrac := decimalNum_div_decimalDen (leastGrid k - 1) k
  have hden := decimalDen_pos (leastGrid k - 1) k
  have htwo : (0 : ℚ) < 2 ^ k := by positivity
  have hunit : (2 ^ 29 * (10 ^ (leastGrid k - 1) / 2 ^ k) + 1 : ℚ) < 2 ^ 29 := by
    rw [← hfrac, ← mul_div_assoc, div_add_one hden.ne', div_lt_iff₀ hden]
    exact_mod_cast hbelow
  rw [← mul_div_assoc, div_add_one htwo.ne', div_lt_iff₀ htwo] at hunit
  have hpow : (10 : ℚ) ^ (leastGrid k - 1) < 10 ^ g := by linarith
  have := (zpow_lt_zpow_iff_right₀ (by norm_num : (1 : ℚ) < 10)).mp hpow
  omega

/-- Decimals on a grid not clearly finer than `2 ^ k` are the middle of two singles, or keep away from
it, with one exception. -/
theorem eq_middle_of_near {k g : ℤ} {c m : ℕ} (hk : -150 ≤ k) (hk' : k ≤ 103) (hodd : m % 2 = 1)
    (hm : m < 2 ^ 25) (hg : (2 ^ 29 * 2 ^ k : ℚ) ≤ 2 ^ 29 * 10 ^ g + 2 ^ k)
    (hnear : |(c * 10 ^ g - m * 2 ^ k : ℚ)| ≤ 2 ^ k / 2 ^ 29) :
    (c * 10 ^ g : ℚ) = m * 2 ^ k ∨ (k = -108 ∨ k = -107) ∧ m = nearMiss := by
  have hcert := certified_of_single (k + 150).toNat (by omega)
  rw [Int.toNat_of_nonneg (by omega), add_sub_cancel_right] at hcert
  have hle := hcert.leastGrid_le hg
  have htwo : (0 : ℚ) < 2 ^ k := by positivity
  have hfrac := decimalNum_div_decimalDen (leastGrid k) k
  have hden := decimalDen_pos (leastGrid k) k
  -- The decimal is a multiple of the least grid, too.
  obtain ⟨c', hc'⟩ : ∃ c' : ℕ, (c * 10 ^ g : ℚ) = c' * 10 ^ leastGrid k := by
    refine ⟨c * 10 ^ (g - leastGrid k).toNat, ?_⟩
    push_cast
    rw [← zpow_natCast, Int.toNat_of_nonneg (by omega), mul_assoc, ← zpow_add₀ (by norm_num),
      sub_add_cancel]
  have hscale : (c' * 10 ^ leastGrid k - m * 2 ^ k : ℚ) =
      (c' * decimalNum (leastGrid k) k - m * decimalDen (leastGrid k) k) *
        (2 ^ k / decimalDen (leastGrid k) k) := by
    have hsplit : (10 ^ leastGrid k : ℚ) =
        decimalNum (leastGrid k) k / decimalDen (leastGrid k) k * 2 ^ k := by
      rw [hfrac, div_mul_cancel₀ _ htwo.ne']
    rw [hsplit]
    field_simp
  rw [hc', hscale, abs_mul, abs_of_pos (div_pos htwo hden), mul_div_assoc', div_le_iff₀ hden] at hnear
  have hdist : (2 ^ 29 * |(c' * decimalNum (leastGrid k) k - m * decimalDen (leastGrid k) k : ℚ)| : ℚ) ≤
      decimalDen (leastGrid k) k := by
    refine le_of_mul_le_mul_right ?_ htwo
    linarith
  rcases hcert.eq_of_near hodd hm (c := c') (by exact_mod_cast hdist) with heq | hmiss
  · refine Or.inl ?_
    have hzero : (c' * decimalNum (leastGrid k) k - m * decimalDen (leastGrid k) k : ℚ) = 0 := by
      rw [sub_eq_zero]
      exact_mod_cast heq
    rw [hzero, zero_mul, sub_eq_zero] at hscale
    rw [hc', hscale]
  · exact Or.inr hmiss

end TileWorld.Number
