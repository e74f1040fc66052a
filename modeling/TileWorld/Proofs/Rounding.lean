import Mathlib.Algebra.Order.Field.Power
import Mathlib.Data.Rat.Cast.Order
import Mathlib.Tactic.FieldSimp
import Mathlib.Tactic.Linarith
import Mathlib.Tactic.Positivity
import Mathlib.Tactic.Ring
import TileWorld.Number.Binary

/-! Rounding to a binary format, in rational numbers. The nearest pattern misses a number by at most
half a unit in its last place, and meets it if the format holds it. -/
namespace TileWorld.Number

theorem zpow_eq_div (b : ℚ) (k : ℤ) : b ^ k = b ^ k.toNat / b ^ (-k).toNat := by
  rcases le_total 0 k with hk | hk
  · rw [show (-k).toNat = 0 by omega, pow_zero, div_one, ← zpow_natCast, Int.toNat_of_nonneg hk]
  · rw [show k.toNat = 0 by omega, pow_zero, one_div, ← zpow_natCast,
      Int.toNat_of_nonneg (by omega), zpow_neg, inv_inv]

theorem two_zpow_add (e k : ℤ) : (2 : ℚ) ^ (e + k) = 2 ^ k * 2 ^ e := by
  rw [← zpow_add₀ two_ne_zero, add_comm]

/-- Shifting numerator or denominator scales a quotient by a power of two. -/
theorem shifted_div (num den : ℕ) (k : ℤ) :
    ((num <<< (-k).toNat : ℕ) : ℚ) / (den <<< k.toNat : ℕ) = num / den / 2 ^ k := by
  rw [zpow_eq_div, Nat.shiftLeft_eq, Nat.shiftLeft_eq]
  push_cast
  field_simp

/-- A natural number nearest to a rational one, and even if another is equally near. -/
structure RoundsTo (z : ℚ) (q : ℕ) : Prop where
  near : |z - q| ≤ 1 / 2
  even : |z - q| = 1 / 2 → q % 2 = 0

theorem RoundsTo.mono {z z' : ℚ} {q q' : ℕ} (h : RoundsTo z q) (h' : RoundsTo z' q') (hz : z ≤ z') :
    q ≤ q' := by
  by_contra hlt
  have hstep : (q' : ℚ) + 1 ≤ q := by exact_mod_cast Nat.lt_of_not_le hlt
  have hq := (abs_le.mp h.near).1
  have hq' := (abs_le.mp h'.near).2
  -- Only the middle between two neighbours is that near to both, and one of them is odd.
  have hmid : z' = q' + 1 / 2 := by linarith
  have hnext : (q : ℚ) = q' + 1 := by linarith
  have heven' : q' % 2 = 0 := h'.even (by rw [hmid, add_sub_cancel_left]; norm_num)
  have heven : q % 2 = 0 := h.even (by rw [show z = q' + 1 / 2 by linarith, hnext]; norm_num)
  have hodd : q = q' + 1 := by exact_mod_cast hnext
  omega

theorem RoundsTo.unique {z : ℚ} {q q' : ℕ} (h : RoundsTo z q) (h' : RoundsTo z q') : q = q' :=
  Nat.le_antisymm (h.mono h' le_rfl) (h'.mono h le_rfl)

theorem roundsTo_natCast (q : ℕ) : RoundsTo q q := by
  constructor <;> norm_num

theorem roundDiv_roundsTo (num : ℕ) {den : ℕ} (hden : 0 < den) :
    RoundsTo (num / den) (roundDiv num den) := by
  have hpos : (0 : ℚ) < den := by exact_mod_cast hden
  have hsplit : (num : ℚ) / den - (num / den : ℕ) = (num % den : ℕ) / den := by
    have h : (num : ℚ) = den * (num / den : ℕ) + (num % den : ℕ) := by
      exact_mod_cast (Nat.div_add_mod num den).symm
    field_simp
    linarith
  have hrem : ((num % den : ℕ) : ℚ) < den := by exact_mod_cast Nat.mod_lt num hden
  have hrem' : (0 : ℚ) ≤ (num % den : ℕ) := Nat.cast_nonneg _
  simp only [roundDiv]
  split
  next h =>
    have hhalf : 2 * ((num % den : ℕ) : ℚ) ≤ den := by
      exact_mod_cast h.elim (fun h => h.le) (fun h => h.1.le)
    refine ⟨?_, ?_⟩
    · rw [hsplit, abs_of_nonneg (by positivity), div_le_div_iff₀ hpos two_pos]
      linarith
    · rw [hsplit, abs_of_nonneg (by positivity), div_eq_div_iff hpos.ne' two_ne_zero]
      intro htie
      have htie' : (num % den) * 2 = 1 * den := by exact_mod_cast htie
      rcases h with h | h
      · omega
      · exact h.2
  next h =>
    -- The remainder is at least half of the denominator, and more if the quotient is even.
    have hhalf : (den : ℚ) ≤ 2 * (num % den : ℕ) := by
      have : den ≤ 2 * (num % den) := by omega
      exact_mod_cast this
    have hup : (num : ℚ) / den - ((num / den + 1 : ℕ) : ℚ) = -((den - (num % den : ℕ)) / den) := by
      push_cast
      rw [← sub_sub, hsplit]
      field_simp
      ring
    have hnonneg : (0 : ℚ) ≤ (den - (num % den : ℕ)) / den := by
      apply div_nonneg <;> linarith
    refine ⟨?_, ?_⟩
    · rw [hup, abs_neg, abs_of_nonneg hnonneg, div_le_div_iff₀ hpos two_pos]
      linarith
    · rw [hup, abs_neg, abs_of_nonneg hnonneg, div_eq_div_iff hpos.ne' two_ne_zero]
      intro htie
      have htie' : (den : ℚ) = 2 * (num % den : ℕ) := by linarith
      have htie'' : den = 2 * (num % den) := by exact_mod_cast htie'
      omega

theorem log2Quotient_spec {num den : ℕ} (hnum : 0 < num) (hden : 0 < den) :
    (2 : ℚ) ^ log2Quotient num den ≤ num / den ∧
      (num / den : ℚ) < 2 ^ (log2Quotient num den + 1) := by
  have hpos : (0 : ℚ) < den := by exact_mod_cast hden
  have hnumlow : (2 : ℚ) ^ (num.log2 : ℤ) ≤ num := by
    rw [zpow_natCast]
    exact_mod_cast Nat.log2_self_le hnum.ne'
  have hnumhigh : (num : ℚ) < 2 ^ (num.log2 + 1 : ℤ) := by
    exact_mod_cast (Nat.lt_log2_self : num < 2 ^ (num.log2 + 1))
  have hdenlow : (2 : ℚ) ^ (den.log2 : ℤ) ≤ den := by
    rw [zpow_natCast]
    exact_mod_cast Nat.log2_self_le hden.ne'
  have hdenhigh : (den : ℚ) < 2 ^ (den.log2 + 1 : ℤ) := by
    exact_mod_cast (Nat.lt_log2_self : den < 2 ^ (den.log2 + 1))
  have hlt (k : ℤ) : num <<< (-k).toNat < den <<< k.toNat ↔ (num / den : ℚ) < 2 ^ k := by
    have hshift : (0 : ℚ) < (den <<< k.toNat : ℕ) := by
      rw [Nat.shiftLeft_eq]
      positivity
    rw [← @Nat.cast_lt ℚ, ← div_lt_one hshift, shifted_div, div_lt_one (by positivity)]
  -- The lengths of the two fix the quotient up to a factor of two, which the comparison settles.
  have hbelow : (2 : ℚ) ^ ((num.log2 : ℤ) - den.log2 - 1) ≤ num / den := by
    rw [le_div_iff₀ hpos]
    calc (2 : ℚ) ^ ((num.log2 : ℤ) - den.log2 - 1) * den
        ≤ 2 ^ ((num.log2 : ℤ) - den.log2 - 1) * 2 ^ (den.log2 + 1 : ℤ) := by gcongr
      _ = 2 ^ (num.log2 : ℤ) := by rw [← zpow_add₀ two_ne_zero]; congr 1; ring
      _ ≤ num := hnumlow
  have habove : (num / den : ℚ) < 2 ^ ((num.log2 : ℤ) - den.log2 + 1) := by
    rw [div_lt_iff₀ hpos]
    calc (num : ℚ) < 2 ^ (num.log2 + 1 : ℤ) := hnumhigh
      _ = 2 ^ ((num.log2 : ℤ) - den.log2 + 1) * 2 ^ (den.log2 : ℤ) := by
        rw [← zpow_add₀ two_ne_zero]; congr 1; ring
      _ ≤ 2 ^ ((num.log2 : ℤ) - den.log2 + 1) * den := by gcongr
  simp only [log2Quotient]
  split
  next h => exact ⟨hbelow, by rw [sub_add_cancel]; exact (hlt _).mp h⟩
  next h => exact ⟨not_lt.mp (mt (hlt _).mpr h), habove⟩

namespace Format

variable (F : Format)

/-- The number that a finite magnitude pattern denotes. -/
def rat (pattern : ℕ) : ℚ :=
  (F.decode pattern).1 * 2 ^ (F.decode pattern).2

/-- The pattern nearest to a number that is not negative. -/
def rounded (y : ℚ) : ℕ :=
  F.nearest y.num.natAbs y.den

/-- The magnitude pattern of a significand at an exponent. -/
def pattern (e : ℤ) (q : ℕ) : ℕ :=
  (e - F.minExponent).toNat * 2 ^ F.fractionBits + q

/-- The exponent of the last place that a number gets: as small as the format and the length of its
significands allow. -/
structure Places (y : ℚ) (e : ℤ) : Prop where
  least : F.minExponent ≤ e
  below : y < 2 ^ (e + F.fractionBits + 1)
  tight : e = F.minExponent ∨ (2 : ℚ) ^ (e + F.fractionBits) ≤ y

/-- The last place of a number, and the significand that it is rounded to there. -/
structure Rounding (y : ℚ) (e : ℤ) (q : ℕ) : Prop extends F.Places y e where
  roundsTo : RoundsTo (y / 2 ^ e) q

variable {F}

theorem Places.le {y y' : ℚ} {e e' : ℤ} (h : F.Places y e) (h' : F.Places y' e') (hy : y ≤ y') :
    e ≤ e' := by
  rcases h.tight with rfl | hlow
  · exact h'.least
  · have := (zpow_lt_zpow_iff_right₀ (by norm_num : (1 : ℚ) < 2)).mp
      ((hlow.trans hy).trans_lt h'.below)
    omega

theorem Places.unique {y : ℚ} {e e' : ℤ} (h : F.Places y e) (h' : F.Places y e') : e = e' :=
  le_antisymm (h.le h' le_rfl) (h'.le h le_rfl)

theorem exists_places {num den : ℕ} (hnum : 0 < num) (hden : 0 < den) :
    F.Places (num / den) (max F.minExponent (log2Quotient num den - F.fractionBits)) := by
  obtain ⟨hlow, hhigh⟩ := log2Quotient_spec hnum hden
  refine ⟨le_max_left _ _, hhigh.trans_le ?_, ?_⟩
  · apply zpow_le_zpow_right₀ (by norm_num)
    have := le_max_right F.minExponent (log2Quotient num den - F.fractionBits)
    omega
  · rcases max_cases F.minExponent (log2Quotient num den - F.fractionBits) with h | h
    · exact Or.inl h.1
    · refine Or.inr ?_
      rw [h.1, sub_add_cancel]
      exact hlow

theorem exists_rounding_nearest {num den : ℕ} (hnum : 0 < num) (hden : 0 < den) :
    ∃ e q, F.Rounding (num / den) e q ∧ F.nearest num den = min F.infinity (F.pattern e q) := by
  have he := exists_places (F := F) hnum hden
  generalize hmax : max F.minExponent (log2Quotient num den - F.fractionBits) = e at he
  have hshift : 0 < den <<< e.toNat := by
    rw [Nat.shiftLeft_eq]
    positivity
  have hround := roundDiv_roundsTo (num <<< (-e).toNat) hshift
  rw [shifted_div] at hround
  refine ⟨e, _, ⟨he, hround⟩, ?_⟩
  rw [nearest, if_neg hnum.ne']
  simp only [hmax, pattern, Nat.shiftLeft_eq _ F.fractionBits]

theorem Rounding.unique {y : ℚ} {e e' : ℤ} {q q' : ℕ} (h : F.Rounding y e q)
    (h' : F.Rounding y e' q') : e = e' ∧ q = q' := by
  obtain rfl := h.toPlaces.unique h'.toPlaces
  exact ⟨rfl, h.roundsTo.unique h'.roundsTo⟩

/-- A quotient is rounded as the number it is, in lowest terms or not. -/
theorem nearest_eq_rounded (num : ℕ) {den : ℕ} (hden : 0 < den) :
    F.nearest num den = F.rounded (num / den) := by
  rcases Nat.eq_zero_or_pos num with rfl | hnum
  · simp [rounded, nearest]
  · have hy : (0 : ℚ) < num / den := by positivity
    have hself : (((num / den : ℚ).num.natAbs : ℕ) : ℚ) / (num / den : ℚ).den = num / den := by
      conv_rhs => rw [← Rat.num_div_den (num / den : ℚ)]
      rw [← Int.cast_natCast, Int.natAbs_of_nonneg (Rat.num_pos.mpr hy).le]
    obtain ⟨e, q, h, heq⟩ := exists_rounding_nearest (F := F) hnum hden
    obtain ⟨e', q', h', heq'⟩ := exists_rounding_nearest (F := F)
      (Int.natAbs_pos.mpr (Rat.num_pos.mpr hy).ne') (num / den : ℚ).den_pos
    rw [hself] at h'
    obtain ⟨rfl, rfl⟩ := h.unique h'
    rw [rounded, heq, heq']

theorem rounded_zero : F.rounded 0 = 0 := by
  simp [rounded, nearest]

theorem exists_rounding {y : ℚ} (hy : 0 < y) :
    ∃ e q, F.Rounding y e q ∧ F.rounded y = min F.infinity (F.pattern e q) := by
  have hself : ((y.num.natAbs : ℕ) : ℚ) / y.den = y := by
    conv_rhs => rw [← Rat.num_div_den y]
    rw [← Int.cast_natCast, Int.natAbs_of_nonneg (Rat.num_pos.mpr hy).le]
  have h := exists_rounding_nearest (F := F) (Int.natAbs_pos.mpr (Rat.num_pos.mpr hy).ne') y.den_pos
  rwa [hself] at h

/-- The nearest pattern, from the last place and the rounded significand. -/
theorem Rounding.rounded {y : ℚ} {e : ℤ} {q : ℕ} (hy : 0 < y) (h : F.Rounding y e q) :
    F.rounded y = min F.infinity (F.pattern e q) := by
  obtain ⟨e', q', h', heq⟩ := exists_rounding (F := F) hy
  obtain ⟨rfl, rfl⟩ := h.unique h'
  exact heq

/-! ### Patterns and the numbers they denote -/

/-- A significand and an exponent as a pattern of the format has them. -/
structure Canonical (F : Format) (e : ℤ) (m : ℕ) : Prop where
  least : F.minExponent ≤ e
  below : m < 2 ^ (F.fractionBits + 1)
  hidden : e = F.minExponent ∨ 2 ^ F.fractionBits ≤ m

theorem decode_pattern {e : ℤ} {m : ℕ} (h : F.Canonical e m) : F.decode (F.pattern e m) = (m, e) := by
  obtain ⟨a, rfl⟩ : ∃ a : ℕ, e = F.minExponent + a := ⟨(e - F.minExponent).toNat, by grind [h.least]⟩
  have ha : a = 0 ∨ 2 ^ F.fractionBits ≤ m := h.hidden.imp_left (by omega)
  have hbelow : m < 2 * 2 ^ F.fractionBits := by
    rw [← pow_succ']
    exact h.below
  have hpos : 0 < 2 ^ F.fractionBits := by positivity
  simp only [decode, pattern, add_sub_cancel_left, Int.toNat_natCast, Nat.shiftRight_eq_div_pow,
    Nat.shiftLeft_eq, one_mul, add_comm (a * _), Nat.add_mul_div_right _ _ hpos,
    Nat.add_mul_mod_self_right]
  -- The hidden bit shows in the quotient of the significand alone.
  rcases Nat.lt_or_ge m (2 ^ F.fractionBits) with hm | hm
  · obtain rfl := ha.resolve_right hm.not_ge
    simp [Nat.div_eq_of_lt hm, Nat.mod_eq_of_lt hm]
  · have hdiv : m / 2 ^ F.fractionBits = 1 := Nat.div_eq_of_lt_le (by omega) (by omega)
    have hmod := Nat.div_add_mod m (2 ^ F.fractionBits)
    rw [hdiv, mul_one] at hmod
    rw [hdiv, if_neg (by omega), Prod.mk.injEq]
    exact ⟨by omega, by congr 1; omega⟩

theorem canonical_decode (p : ℕ) : F.Canonical (F.decode p).2 (F.decode p).1 := by
  have hpos : 0 < 2 ^ F.fractionBits := by positivity
  have hmod := Nat.mod_lt p hpos
  simp only [decode, Nat.shiftRight_eq_div_pow, Nat.shiftLeft_eq, one_mul]
  split
  · exact ⟨le_rfl, by rw [pow_succ]; omega, Or.inl rfl⟩
  · exact ⟨le_add_of_nonneg_right (Nat.cast_nonneg _), by rw [pow_succ]; omega, Or.inr (by omega)⟩

theorem pattern_decode (p : ℕ) : F.pattern (F.decode p).2 (F.decode p).1 = p := by
  have hsplit := Nat.div_add_mod' p (2 ^ F.fractionBits)
  simp only [decode, pattern, Nat.shiftRight_eq_div_pow, Nat.shiftLeft_eq, one_mul]
  split
  next h =>
    rw [h] at hsplit
    simpa using hsplit
  next h =>
    have hexp : (F.minExponent + (p / 2 ^ F.fractionBits - 1 : ℕ) - F.minExponent).toNat + 1 =
        p / 2 ^ F.fractionBits := by
      generalize p / 2 ^ F.fractionBits = a at h ⊢
      omega
    rw [← hexp] at hsplit
    simp only
    linarith

theorem Canonical.lt_of_exponent_lt {e e' : ℤ} {m m' : ℕ} (h : F.Canonical e m)
    (h' : F.Canonical e' m') (hlt : e < e') : (m * 2 ^ e : ℚ) < m' * 2 ^ e' := by
  have hbelow : (m : ℚ) < 2 ^ (F.fractionBits + 1) := by exact_mod_cast h.below
  have hleast := h.least
  have hhidden : (2 : ℚ) ^ F.fractionBits ≤ m' := by
    exact_mod_cast h'.hidden.resolve_left (by omega)
  calc (m * 2 ^ e : ℚ) < 2 ^ (F.fractionBits + 1) * 2 ^ e := by gcongr
    _ = 2 ^ F.fractionBits * 2 ^ (e + 1) := by rw [zpow_add_one₀ two_ne_zero]; ring
    _ ≤ m' * 2 ^ e' := by
      gcongr
      · norm_num
      · omega

/-- A carry out of the significand adds itself to the exponent field. -/
theorem pattern_carry {e : ℤ} (he : F.minExponent ≤ e) :
    F.pattern e (2 ^ (F.fractionBits + 1)) = F.pattern (e + 1) (2 ^ F.fractionBits) := by
  have hexp : (e + 1 - F.minExponent).toNat = (e - F.minExponent).toNat + 1 := by omega
  rw [pattern, pattern, hexp, pow_succ]
  ring

theorem rat_pattern {e : ℤ} {q : ℕ} (he : F.minExponent ≤ e) (hq : q ≤ 2 ^ (F.fractionBits + 1))
    (hidden : e = F.minExponent ∨ 2 ^ F.fractionBits ≤ q) :
    F.rat (F.pattern e q) = q * 2 ^ e := by
  rcases hq.lt_or_eq with hq | rfl
  · rw [rat, decode_pattern ⟨he, hq, hidden⟩]
  · rw [pattern_carry he, rat, decode_pattern ⟨by omega, Nat.pow_lt_pow_succ one_lt_two, Or.inr le_rfl⟩]
    push_cast
    rw [zpow_add_one₀ two_ne_zero, pow_succ]
    ring

theorem Rounding.bounds {y : ℚ} {e : ℤ} {q : ℕ} (h : F.Rounding y e q) :
    q ≤ 2 ^ (F.fractionBits + 1) ∧ (e = F.minExponent ∨ 2 ^ F.fractionBits ≤ q) := by
  obtain ⟨hlow, hhigh⟩ := abs_le.mp h.roundsTo.near
  constructor
  · have hz : y / 2 ^ e < 2 ^ (F.fractionBits + 1) := by
      rw [div_lt_iff₀ (by positivity), ← zpow_natCast, ← two_zpow_add, Nat.cast_succ, ← add_assoc]
      exact h.below
    have hq : (q : ℚ) < 2 ^ (F.fractionBits + 1) + 1 := by linarith
    exact Nat.lt_succ_iff.mp (by exact_mod_cast hq)
  · refine h.tight.imp_right fun htight => ?_
    have hz : (2 : ℚ) ^ F.fractionBits ≤ y / 2 ^ e := by
      rw [le_div_iff₀ (by positivity), ← zpow_natCast, ← two_zpow_add]
      exact htight
    have hq : (2 : ℚ) ^ F.fractionBits < q + 1 := by linarith
    exact Nat.lt_succ_iff.mp (by exact_mod_cast hq)

theorem decode_fst_eq_zero_iff {p : ℕ} : (F.decode p).1 = 0 ↔ p = 0 := by
  constructor
  · intro hzero
    have hself := F.pattern_decode p
    have hleast := (F.canonical_decode p).hidden.resolve_right (by rw [hzero]; simp)
    rw [pattern, hleast, hzero, sub_self] at hself
    simpa using hself.symm
  · rintro rfl
    simp [decode]

theorem decode_fst_pos {p : ℕ} (hp : 0 < p) : 0 < (F.decode p).1 :=
  Nat.pos_of_ne_zero (mt decode_fst_eq_zero_iff.mp hp.ne')

theorem rat_pos {p : ℕ} (hp : 0 < p) : 0 < F.rat p := by
  have hm : (0 : ℚ) < (F.decode p).1 := by exact_mod_cast decode_fst_pos hp
  rw [rat]
  positivity

theorem rat_nonneg (F : Format) (p : ℕ) : 0 ≤ F.rat p := by
  rw [rat]
  positivity

/-- A number that the format holds is not changed by rounding. -/
theorem rounded_rat {p : ℕ} (hp : p < F.infinity) : F.rounded (F.rat p) = p := by
  rcases Nat.eq_zero_or_pos p with rfl | hpos
  · have hzero : F.rat 0 = 0 := by simp [rat, decode]
    rw [hzero, rounded_zero]
  have h := F.canonical_decode p
  have hplaces : F.Places (F.rat p) (F.decode p).2 := by
    refine ⟨h.least, ?_, h.hidden.imp_right fun hm => ?_⟩
    · rw [rat, add_assoc, two_zpow_add]
      have : ((F.decode p).1 : ℚ) < 2 ^ (F.fractionBits + 1) := by exact_mod_cast h.below
      gcongr
      exact_mod_cast this
    · rw [rat, two_zpow_add]
      have : (2 : ℚ) ^ F.fractionBits ≤ (F.decode p).1 := by exact_mod_cast hm
      gcongr
      exact_mod_cast this
  have hround : RoundsTo (F.rat p / 2 ^ (F.decode p).2) (F.decode p).1 := by
    rw [rat, mul_div_cancel_right₀ _ (by positivity)]
    exact roundsTo_natCast _
  rw [Rounding.rounded (rat_pos hpos) ⟨hplaces, hround⟩, pattern_decode]
  omega

theorem pattern_mono {e e' : ℤ} {q q' : ℕ} (he : F.minExponent ≤ e) (hle : e ≤ e')
    (hq : q ≤ 2 ^ (F.fractionBits + 1)) (hq' : e < e' → 2 ^ F.fractionBits ≤ q')
    (heq : e = e' → q ≤ q') : F.pattern e q ≤ F.pattern e' q' := by
  rcases hle.eq_or_lt with rfl | hlt
  · exact Nat.add_le_add_left (heq rfl) _
  · have hstep : (e - F.minExponent).toNat + 1 ≤ (e' - F.minExponent).toNat := by omega
    calc F.pattern e q ≤ ((e - F.minExponent).toNat + 1) * 2 ^ F.fractionBits + 2 ^ F.fractionBits := by
          rw [pow_succ] at hq
          rw [pattern]
          linarith
      _ ≤ (e' - F.minExponent).toNat * 2 ^ F.fractionBits + q' := by
          gcongr
          exact hq' hlt

theorem rounded_mono {y y' : ℚ} (hy : 0 ≤ y) (hle : y ≤ y') : F.rounded y ≤ F.rounded y' := by
  rcases hy.eq_or_lt with rfl | hpos
  · rw [rounded_zero]
    exact Nat.zero_le _
  obtain ⟨e, q, h, heq⟩ := exists_rounding (F := F) hpos
  obtain ⟨e', q', h', heq'⟩ := exists_rounding (F := F) (hpos.trans_le hle)
  have he : e ≤ e' := h.le h'.toPlaces hle
  have hpattern : F.pattern e q ≤ F.pattern e' q' := by
    refine pattern_mono h.least he h.bounds.1 (fun hlt => ?_) (fun heq => ?_)
    · have := h.least
      exact h'.bounds.2.resolve_left (by omega)
    · subst heq
      exact h.roundsTo.mono h'.roundsTo (by gcongr)
  rw [heq, heq']
  omega

theorem rat_lt_iff {p p' : ℕ} (hp : p < F.infinity) (hp' : p' < F.infinity) :
    F.rat p < F.rat p' ↔ p < p' := by
  have hmono {a b : ℕ} (ha : a < F.infinity) (hb : b < F.infinity) (h : F.rat a ≤ F.rat b) : a ≤ b := by
    have := rounded_mono (F := F) (F.rat_nonneg a) h
    rwa [rounded_rat ha, rounded_rat hb] at this
  constructor
  · intro h
    refine (hmono hp hp' h.le).lt_of_ne ?_
    rintro rfl
    exact lt_irrefl _ h
  · intro h
    by_contra hle
    exact absurd (hmono hp' hp (not_lt.mp hle)) (by omega)

theorem rat_le_rat {p p' : ℕ} (hp' : p' < F.infinity) (h : p ≤ p') : F.rat p ≤ F.rat p' := by
  rcases h.eq_or_lt with rfl | hlt
  · exact le_rfl
  · exact ((rat_lt_iff (hlt.trans hp') hp').mpr hlt).le

/-- The middle between a pattern's number and the next. -/
def mid (F : Format) (p : ℕ) : ℚ :=
  ((F.decode p).1 + 1 / 2) * 2 ^ (F.decode p).2

/-- Between a pattern's number and the next, the last place stays the same. -/
theorem places_between {p : ℕ} {y : ℚ} (hlow : F.rat p ≤ y)
    (hhigh : y < ((F.decode p).1 + 1) * 2 ^ (F.decode p).2) : F.Places y (F.decode p).2 := by
  have h := F.canonical_decode p
  refine ⟨h.least, hhigh.trans_le ?_, h.hidden.imp_right fun hm => le_trans ?_ hlow⟩
  · have hbelow : ((F.decode p).1 + 1 : ℚ) ≤ 2 ^ (F.fractionBits + 1) := by exact_mod_cast h.below
    rw [add_assoc, two_zpow_add]
    gcongr
    exact_mod_cast hbelow
  · have hhidden : (2 : ℚ) ^ F.fractionBits ≤ (F.decode p).1 := by exact_mod_cast hm
    rw [rat, two_zpow_add]
    gcongr
    exact_mod_cast hhidden

/-- The numbers that round no further up than to a pattern are those below the middle to the next,
and the middle itself for an even significand. -/
theorem rounded_le_iff {y : ℚ} (hy : 0 ≤ y) {p : ℕ} (hp : p < F.infinity) :
    F.rounded y ≤ p ↔ y < F.mid p ∨ y = F.mid p ∧ (F.decode p).1 % 2 = 0 := by
  have hplace : (0 : ℚ) < 2 ^ (F.decode p).2 := by positivity
  have hself := F.pattern_decode p
  have hup {y : ℚ} (hlow : F.mid p ≤ y) (hhigh : y < ((F.decode p).1 + 1) * 2 ^ (F.decode p).2)
      (htie : y = F.mid p → (F.decode p).1 % 2 = 1) : p < F.rounded y := by
    have hrat : F.rat p < y := by
      rw [mid] at hlow
      rw [rat]
      linarith
    have hround : RoundsTo (y / 2 ^ (F.decode p).2) ((F.decode p).1 + 1) := by
      have hz : ((F.decode p).1 : ℚ) + 1 / 2 ≤ y / 2 ^ (F.decode p).2 := by
        rwa [le_div_iff₀ hplace]
      have hz' : y / 2 ^ (F.decode p).2 < (F.decode p).1 + 1 := by rwa [div_lt_iff₀ hplace]
      refine ⟨abs_le.mpr ⟨by push_cast; linarith, by push_cast; linarith⟩, fun h => ?_⟩
      have hmid : y = F.mid p := by
        push_cast at h
        rw [abs_of_neg (by linarith)] at h
        rw [mid, ← div_eq_iff hplace.ne']
        linarith
      have := htie hmid
      omega
    rw [Rounding.rounded ((F.rat_nonneg p).trans_lt hrat) ⟨places_between hrat.le hhigh, hround⟩]
    rw [pattern] at hself ⊢
    omega
  constructor
  · intro hle
    by_contra hnot
    obtain ⟨hlow, htie⟩ := not_or.mp hnot
    have hodd : y = F.mid p → (F.decode p).1 % 2 = 1 := by
      intro h
      have := not_and.mp htie h
      omega
    rcases lt_or_ge y (((F.decode p).1 + 1) * 2 ^ (F.decode p).2) with hhigh | hhigh
    · have := hup (not_lt.mp hlow) hhigh hodd
      omega
    · -- From the next pattern's number on, a number between the middle and that one will do.
      have hbetween := hup (y := ((F.decode p).1 + 3 / 4) * 2 ^ (F.decode p).2)
        (mul_le_mul_of_nonneg_right (by linarith) hplace.le)
        (mul_lt_mul_of_pos_right (by linarith) hplace)
        (fun h => by rw [mid, mul_eq_mul_right_iff] at h; norm_num [hplace.ne'] at h)
      have hmono := rounded_mono (F := F) (by positivity)
        (show ((F.decode p).1 + 3 / 4) * 2 ^ (F.decode p).2 ≤ y by linarith)
      omega
  · intro h
    have hle : y ≤ F.mid p := h.elim le_of_lt (fun h => h.1.le)
    rcases le_or_gt y (F.rat p) with hlow | hlow
    · calc F.rounded y ≤ F.rounded (F.rat p) := rounded_mono hy hlow
        _ = p := rounded_rat hp
    · have hhigh : y < ((F.decode p).1 + 1) * 2 ^ (F.decode p).2 := by
        rw [mid] at hle
        linarith
      have hround : RoundsTo (y / 2 ^ (F.decode p).2) (F.decode p).1 := by
        have hz : (F.decode p).1 < y / 2 ^ (F.decode p).2 := by rwa [lt_div_iff₀ hplace]
        have hz' : y / 2 ^ (F.decode p).2 ≤ (F.decode p).1 + 1 / 2 := by rwa [div_le_iff₀ hplace]
        refine ⟨abs_le.mpr ⟨by linarith, by linarith⟩, fun heq => ?_⟩
        rcases h with h | h
        · rw [mid, ← div_lt_iff₀ hplace] at h
          rw [abs_of_pos (by linarith)] at heq
          linarith
        · exact h.2
      rw [Rounding.rounded ((F.rat_nonneg p).trans_lt hlow) ⟨places_between hlow.le hhigh, hround⟩, hself]
      omega

theorem decode_fst_mod_two (hF : 0 < F.fractionBits) (p : ℕ) : (F.decode p).1 % 2 = p % 2 := by
  have hdvd : 2 ∣ 2 ^ F.fractionBits := dvd_pow_self 2 hF.ne'
  have hmod := Nat.mod_mod_of_dvd p hdvd
  simp only [decode, Nat.shiftRight_eq_div_pow, Nat.shiftLeft_eq, one_mul]
  split
  · exact hmod
  · rw [← hmod, Nat.add_mod, Nat.mod_eq_zero_of_dvd hdvd, add_zero, Nat.mod_mod]

/-- The pattern below another: one less in the significand, or the greatest one of the exponent below. -/
theorem decode_pred {p : ℕ} (hp : 0 < p) :
    F.decode (p - 1) =
      if (F.decode p).2 ≠ F.minExponent ∧ (F.decode p).1 = 2 ^ F.fractionBits then
        (2 ^ (F.fractionBits + 1) - 1, (F.decode p).2 - 1)
      else ((F.decode p).1 - 1, (F.decode p).2) := by
  have hself := F.pattern_decode p
  obtain ⟨hleast, hbelow, hhidden⟩ := F.canonical_decode p
  have hpos : 0 < 2 ^ F.fractionBits := by positivity
  have hm : 0 < (F.decode p).1 := decode_fst_pos hp
  generalize (F.decode p).1 = m at *
  generalize (F.decode p).2 = e at *
  have hsucc := pow_succ 2 F.fractionBits
  split
  next h =>
    obtain ⟨a, rfl⟩ : ∃ a : ℕ, e = F.minExponent + (a + 1 : ℕ) :=
      ⟨(e - F.minExponent).toNat - 1, by omega⟩
    have hpred : p - 1 = F.pattern (F.minExponent + (a + 1 : ℕ) - 1) (2 ^ (F.fractionBits + 1) - 1) := by
      rw [← hself, pattern, pattern, h.2,
        show (F.minExponent + (a + 1 : ℕ) - F.minExponent).toNat = a + 1 by omega,
        show (F.minExponent + (a + 1 : ℕ) - 1 - F.minExponent).toNat = a by omega, Nat.succ_mul]
      omega
    rw [hpred, decode_pattern ⟨by omega, by omega, Or.inr (by omega)⟩]
  next h =>
    have hpred : p - 1 = F.pattern e (m - 1) := by
      rw [← hself, pattern, pattern]
      omega
    rw [hpred, decode_pattern ⟨hleast, by omega, by omega⟩]

/-- Rounding misses a number by at most half a unit in the last place that its size allows. -/
theorem abs_sub_rounded_le {y : ℚ} (hy : 0 < y) {k : ℤ} (hk : F.minExponent ≤ k)
    (hbelow : y < 2 ^ (k + F.fractionBits + 1)) (hfin : F.rounded y < F.infinity) :
    |y - F.rat (F.rounded y)| ≤ 2 ^ (k - 1) := by
  obtain ⟨e, q, h, heq⟩ := exists_rounding (F := F) hy
  have hek : e ≤ k := by
    rcases h.tight with rfl | hlow
    · exact hk
    · have := (zpow_lt_zpow_iff_right₀ (by norm_num : (1 : ℚ) < 2)).mp (hlow.trans_lt hbelow)
      omega
  have hpattern : F.rounded y = F.pattern e q := by omega
  have hsplit : y - q * 2 ^ e = (y / 2 ^ e - q) * 2 ^ e := by
    rw [sub_mul, div_mul_cancel₀ _ (by positivity)]
  rw [hpattern, rat_pattern h.least h.bounds.1 h.bounds.2, hsplit, abs_mul,
    abs_of_pos (show (0 : ℚ) < 2 ^ e by positivity)]
  calc |y / 2 ^ e - q| * 2 ^ e ≤ 1 / 2 * 2 ^ k := by
        gcongr
        · exact h.roundsTo.near
        · norm_num
    _ = 2 ^ (k - 1) := by rw [zpow_sub_one₀ two_ne_zero]; ring

theorem rounded_le_infinity (y : ℚ) : F.rounded y ≤ F.infinity := by
  rw [rounded, nearest]
  split
  · exact Nat.zero_le _
  · exact min_le_left _ _

/-- Rounding does not pass a number that the format holds. -/
theorem rounded_le_of_le_rat {y : ℚ} (hy : 0 ≤ y) {p : ℕ} (hp : p < F.infinity) (h : y ≤ F.rat p) :
    F.rounded y ≤ p :=
  (rounded_mono hy h).trans_eq (rounded_rat hp)

/-- Numbers whose significand is short enough are held exactly. -/
theorem rat_rounded_of_short {m : ℕ} {k : ℤ} (hm : m < 2 ^ (F.fractionBits + 1))
    (hk : F.minExponent ≤ k) (hfin : F.rounded (m * 2 ^ k) < F.infinity) :
    F.rat (F.rounded (m * 2 ^ k)) = m * 2 ^ k := by
  rcases Nat.eq_zero_or_pos m with rfl | hpos
  · rw [Nat.cast_zero, zero_mul, rounded_zero, rat, decode]
    simp
  obtain ⟨e, q, h, heq⟩ := exists_rounding (F := F) (show (0 : ℚ) < m * 2 ^ k by positivity)
  have hek : e ≤ k := by
    rcases h.tight with rfl | hlow
    · exact hk
    · have hbelow : (m * 2 ^ k : ℚ) < 2 ^ (k + F.fractionBits + 1) := by
        have : (m : ℚ) < 2 ^ (F.fractionBits + 1) := by exact_mod_cast hm
        rw [add_assoc, add_comm, zpow_add₀ two_ne_zero, ← Nat.cast_succ, zpow_natCast]
        gcongr
      have := (zpow_lt_zpow_iff_right₀ (by norm_num : (1 : ℚ) < 2)).mp (hlow.trans_lt hbelow)
      omega
  -- In units of the last place it is a whole number, which rounds to itself.
  have hwhole : (m * 2 ^ k / 2 ^ e : ℚ) = (m * 2 ^ (k - e).toNat : ℕ) := by
    push_cast
    rw [← zpow_natCast, Int.toNat_of_nonneg (by omega), mul_div_assoc, ← zpow_sub₀ two_ne_zero]
  have hq : q = m * 2 ^ (k - e).toNat := by
    have := h.roundsTo
    rw [hwhole] at this
    exact this.unique (roundsTo_natCast _)
  have hpattern : F.rounded (m * 2 ^ k) = F.pattern e q := by omega
  rw [hpattern, rat_pattern h.least h.bounds.1 h.bounds.2, hq, ← hwhole, div_mul_cancel₀ _ (by positivity)]

end Format

end TileWorld.Number
