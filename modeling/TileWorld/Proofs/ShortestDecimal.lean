import TileWorld.Number.Shortest
import TileWorld.Proofs.DecimalBoundaries

/-! The decimal that a float is written as rounds back to it, and is one of the two neighbours of the
float on its grid. -/
namespace TileWorld.Number

namespace Basin

/-- A number that rounds to the float of a basin. -/
def Holds (b : Basin) (y : ℚ) : Prop :=
  if b.closed then b.low * 2 ^ b.exponent ≤ y ∧ y ≤ b.high * 2 ^ b.exponent
  else b.low * 2 ^ b.exponent < y ∧ y < b.high * 2 ^ b.exponent

/-- One step of a grid, in the units in which `onGrid?` compares. -/
def unit (b : Basin) (grid : ℤ) : ℕ :=
  Nat.pow 10 grid.toNat <<< (-b.exponent).toNat

/-- One unit of a basin, in the units in which `onGrid?` compares. -/
def scale (b : Basin) (grid : ℤ) : ℕ :=
  Nat.pow 10 (-grid).toNat <<< b.exponent.toNat

theorem unit_pos (b : Basin) (grid : ℤ) : 0 < b.unit grid := by
  rw [unit, Nat.shiftLeft_eq]
  exact Nat.mul_pos (Nat.pow_pos (by norm_num)) (by positivity)

theorem scale_pos (b : Basin) (grid : ℤ) : 0 < b.scale grid := by
  rw [scale, Nat.shiftLeft_eq]
  exact Nat.mul_pos (Nat.pow_pos (by norm_num)) (by positivity)

theorem unit_mul (b : Basin) (grid : ℤ) :
    (b.unit grid * 2 ^ b.exponent : ℚ) = b.scale grid * 10 ^ grid := by
  rw [unit, scale, Nat.shiftLeft_eq, Nat.shiftLeft_eq, zpow_eq_div 2, zpow_eq_div 10]
  simp only [Nat.pow_eq]
  push_cast
  field_simp

/-- The whole numbers that `onGrid?` compares have the order of the numbers they stand for. -/
theorem mul_unit_sub (b : Basin) (grid : ℤ) (n c : ℕ) :
    (c * b.unit grid - n * b.scale grid : ℚ) * 2 ^ b.exponent =
      (c * 10 ^ grid - n * 2 ^ b.exponent) * b.scale grid := by
  have hunit := b.unit_mul grid
  linear_combination (c : ℚ) * hunit

theorem scale_lt_unit_iff (b : Basin) (grid : ℤ) (n c : ℕ) :
    n * b.scale grid < c * b.unit grid ↔ (n * 2 ^ b.exponent : ℚ) < c * 10 ^ grid := by
  have hscale : (0 : ℚ) < b.scale grid := by exact_mod_cast b.scale_pos grid
  have htwo : (0 : ℚ) < 2 ^ b.exponent := by positivity
  calc n * b.scale grid < c * b.unit grid
      ↔ (0 : ℚ) < c * b.unit grid - n * b.scale grid := by rw [sub_pos]; exact_mod_cast Iff.rfl
    _ ↔ (0 : ℚ) < (c * b.unit grid - n * b.scale grid) * 2 ^ b.exponent := by
        rw [mul_pos_iff_of_pos_right htwo]
    _ ↔ (n * 2 ^ b.exponent : ℚ) < c * 10 ^ grid := by
        rw [mul_unit_sub, mul_pos_iff_of_pos_right hscale, sub_pos]

theorem unit_lt_scale_iff (b : Basin) (grid : ℤ) (n c : ℕ) :
    c * b.unit grid < n * b.scale grid ↔ (c * 10 ^ grid : ℚ) < n * 2 ^ b.exponent := by
  have hscale : (0 : ℚ) < b.scale grid := by exact_mod_cast b.scale_pos grid
  have htwo : (0 : ℚ) < 2 ^ b.exponent := by positivity
  calc c * b.unit grid < n * b.scale grid
      ↔ (0 : ℚ) < -(c * b.unit grid - n * b.scale grid) := by
        rw [neg_sub, sub_pos]
        exact_mod_cast Iff.rfl
    _ ↔ (0 : ℚ) < -(c * b.unit grid - n * b.scale grid) * 2 ^ b.exponent := by
        rw [mul_pos_iff_of_pos_right htwo]
    _ ↔ (c * 10 ^ grid : ℚ) < n * 2 ^ b.exponent := by
        rw [neg_mul, mul_unit_sub, ← neg_mul, mul_pos_iff_of_pos_right hscale, neg_sub, sub_pos]

/-- What `onGrid?` takes to be inside is inside. -/
def inside (b : Basin) (grid : ℤ) (x : ℕ) : Bool :=
  if b.closed then b.low * b.scale grid ≤ x ∧ x ≤ b.high * b.scale grid
  else b.low * b.scale grid < x ∧ x < b.high * b.scale grid

theorem inside_iff (b : Basin) (grid : ℤ) (c : ℕ) :
    b.inside grid (c * b.unit grid) = true ↔ b.Holds (c * 10 ^ grid) := by
  have hlow := b.scale_lt_unit_iff grid b.low c
  have hhigh := b.unit_lt_scale_iff grid b.high c
  have hlow' := b.unit_lt_scale_iff grid b.low c
  have hhigh' := b.scale_lt_unit_iff grid b.high c
  rw [inside, Holds]
  split
  · rw [decide_eq_true_iff, ← not_lt, ← not_lt, hlow', hhigh', not_lt, not_lt]
  · rw [decide_eq_true_iff, hlow, hhigh]

/-- A hit on a grid is one of the two multiples next to the float, and inside. -/
theorem onGrid?_cases {b : Basin} {tie : Tie} {grid : ℤ} {c : ℕ} (h : b.onGrid? tie grid = some c) :
    b.inside grid (c * b.unit grid) = true ∧
      (c = b.mid * b.scale grid / b.unit grid ∨ c = b.mid * b.scale grid / b.unit grid + 1) := by
  unfold onGrid? at h
  dsimp only at h
  split at h
  next hbelow habove =>
    have hbelow' : b.inside grid (b.mid * b.scale grid / b.unit grid * b.unit grid) = true := hbelow
    have habove' : b.inside grid ((b.mid * b.scale grid / b.unit grid + 1) * b.unit grid) = true := by
      rw [Nat.succ_mul]
      exact habove
    have hcases : c = b.mid * b.scale grid / b.unit grid ∨ c = b.mid * b.scale grid / b.unit grid + 1 := by
      split at h <;> simp only [Option.some.injEq] at h
      · exact Or.inl h.symm
      · exact Or.inr h.symm
      · exact Or.inr h.symm
      · -- The even one of two neighbours is the one or the other.
        change b.mid * b.scale grid / b.unit grid + b.mid * b.scale grid / b.unit grid % 2 = c at h
        omega
    exact ⟨hcases.elim (fun hc => hc ▸ hbelow') (fun hc => hc ▸ habove'), hcases⟩
  next hbelow habove =>
    obtain rfl := Option.some.inj h
    exact ⟨hbelow, Or.inl rfl⟩
  next hbelow habove =>
    obtain rfl := Option.some.inj h
    refine ⟨?_, Or.inr rfl⟩
    rw [Nat.succ_mul]
    exact habove
  next => cases h

/-- The multiples of a grid's step next to the float. -/
theorem floor_bounds (b : Basin) (grid : ℤ) :
    ((b.mid * b.scale grid / b.unit grid : ℕ) * 10 ^ grid : ℚ) ≤ b.mid * 2 ^ b.exponent ∧
      (b.mid * 2 ^ b.exponent : ℚ) < ((b.mid * b.scale grid / b.unit grid : ℕ) + 1) * 10 ^ grid := by
  have hbelow : ¬ b.mid * b.scale grid < b.mid * b.scale grid / b.unit grid * b.unit grid :=
    (Nat.div_mul_le_self _ _).not_gt
  have habove : b.mid * b.scale grid < (b.mid * b.scale grid / b.unit grid + 1) * b.unit grid :=
    Nat.lt_mul_of_div_lt (Nat.lt_succ_self _) (b.unit_pos grid)
  rw [scale_lt_unit_iff] at hbelow habove
  rw [Nat.cast_succ] at habove
  exact ⟨not_lt.mp hbelow, habove⟩

/-- A hit on a grid is inside, and within one step of the float. -/
theorem onGrid?_spec {b : Basin} {tie : Tie} {grid : ℤ} {c : ℕ} (h : b.onGrid? tie grid = some c) :
    b.Holds (c * 10 ^ grid) ∧ |(c * 10 ^ grid - b.mid * 2 ^ b.exponent : ℚ)| ≤ 10 ^ grid := by
  obtain ⟨hinside, hcases⟩ := onGrid?_cases h
  obtain ⟨hbelow, habove⟩ := b.floor_bounds grid
  refine ⟨(b.inside_iff grid c).mp hinside, abs_le.mpr ?_⟩
  have hstep : (0 : ℚ) < 10 ^ grid := by positivity
  rcases hcases with rfl | rfl
  · constructor <;> linarith
  · rw [Nat.cast_succ]
    constructor <;> linarith

/-- A grid no coarser than a basin's unit has a hit. -/
theorem exists_onGrid? {b : Basin} (tie : Tie) {grid : ℤ} (hlow : b.low < b.mid) (hhigh : b.mid < b.high)
    (hgrid : (10 ^ grid : ℚ) ≤ 2 ^ b.exponent) : ∃ c, b.onGrid? tie grid = some c := by
  obtain ⟨hbelow, habove⟩ := b.floor_bounds grid
  have htwo : (0 : ℚ) < 2 ^ b.exponent := by positivity
  have hlow' : (b.low * 2 ^ b.exponent : ℚ) < (b.mid * b.scale grid / b.unit grid : ℕ) * 10 ^ grid := by
    have hle : (b.low + 1 : ℚ) ≤ b.mid := by exact_mod_cast hlow
    have := mul_le_mul_of_nonneg_right hle htwo.le
    linarith
  have hhigh' : ((b.mid * b.scale grid / b.unit grid : ℕ) * 10 ^ grid : ℚ) < b.high * 2 ^ b.exponent := by
    have hlt : (b.mid : ℚ) < b.high := by exact_mod_cast hhigh
    exact hbelow.trans_lt (mul_lt_mul_of_pos_right hlt htwo)
  have hinside : b.inside grid (b.mid * b.scale grid / b.unit grid * b.unit grid) = true := by
    rw [inside_iff, Holds]
    split
    · exact ⟨hlow'.le, hhigh'.le⟩
    · exact ⟨hlow', hhigh'⟩
  unfold onGrid?
  dsimp only
  split
  next => split <;> exact ⟨_, rfl⟩
  next => exact ⟨_, rfl⟩
  next => exact ⟨_, rfl⟩
  next hnone _ => exact absurd (hinside.symm.trans hnone) (by decide)

/-- The search ends at a hit, if one of its grids has one. -/
theorem search_spec {b : Basin} {tie : Tie} {fuel : ℕ} {grid : ℤ}
    (h : ∃ i < fuel, ∃ c, b.onGrid? tie (grid - i) = some c) :
    b.onGrid? tie (b.search tie fuel grid).2 = some (b.search tie fuel grid).1 ∧
      grid - fuel < (b.search tie fuel grid).2 ∧ (b.search tie fuel grid).2 ≤ grid := by
  induction fuel generalizing grid with
  | zero =>
    obtain ⟨i, hi, -⟩ := h
    omega
  | succ fuel ih =>
    rw [search]
    split
    next c hc => exact ⟨hc, by push_cast; omega, le_rfl⟩
    next hnone =>
      obtain ⟨i, hi, c, hc⟩ := h
      -- The hit is not on this grid, so it is on one of the finer ones.
      obtain ⟨j, rfl⟩ : ∃ j, i = j + 1 := by
        refine Nat.exists_eq_succ_of_ne_zero ?_
        rintro rfl
        rw [Nat.cast_zero, sub_zero, hnone] at hc
        cases hc
      have hrest : ∃ i < fuel, ∃ c, b.onGrid? tie (grid - 1 - i) = some c := by
        refine ⟨j, by omega, c, ?_⟩
        rw [← hc]
        congr 1
        push_cast
        ring
      obtain ⟨hhit, hlow, hhigh⟩ := ih hrest
      refine ⟨hhit, ?_, ?_⟩
      · push_cast
        linarith
      · linarith

/-! ### Basins of patterns -/

variable {F : Format}

theorem halved_iff {p : ℕ} (hp : 0 < p) :
    (p % 1 <<< F.fractionBits = 0 ∧ 1 <<< F.fractionBits < p) ↔
      ((F.decode p).2 ≠ F.minExponent ∧ (F.decode p).1 = 2 ^ F.fractionBits) := by
  have hself := F.pattern_decode p
  obtain ⟨hleast, hbelow, hhidden⟩ := F.canonical_decode p
  have hpos : 0 < 2 ^ F.fractionBits := by positivity
  have hm : 0 < (F.decode p).1 := Format.decode_fst_pos hp
  generalize (F.decode p).1 = m at *
  generalize (F.decode p).2 = e at *
  obtain ⟨a, rfl⟩ : ∃ a : ℕ, e = F.minExponent + a := ⟨(e - F.minExponent).toNat, by omega⟩
  have hsum : p = a * 2 ^ F.fractionBits + m := by
    rw [← hself, Format.pattern, add_sub_cancel_left, Int.toNat_natCast]
  have hmod : p % 2 ^ F.fractionBits = m % 2 ^ F.fractionBits := by
    rw [hsum, Nat.mul_add_mod_self_right]
  have hwhole : m % 2 ^ F.fractionBits = 0 ↔ m = 2 ^ F.fractionBits := by
    constructor
    · intro h
      obtain ⟨k, rfl⟩ := Nat.dvd_of_mod_eq_zero h
      have hk : k < 2 := by
        rw [pow_succ] at hbelow
        exact lt_of_mul_lt_mul_left hbelow hpos.le
      have hk' : k ≠ 0 := by
        rintro rfl
        omega
      rw [show k = 1 by omega, mul_one]
    · rintro rfl
      exact Nat.mod_self _
  rw [Nat.shiftLeft_eq, one_mul, hmod, hwhole, and_comm]
  refine and_congr_left fun h => ?_
  rw [hsum, h]
  constructor
  · intro hlt heq
    have : a = 0 := by omega
    rw [this, zero_mul, zero_add] at hlt
    exact lt_irrefl _ hlt
  · intro hne
    have : 0 < a := by omega
    have := Nat.mul_pos this hpos
    omega

theorem ofPattern_high (p : ℕ) :
    ((ofPattern F p).high * 2 ^ (ofPattern F p).exponent : ℚ) = F.mid p := by
  simp only [ofPattern, Format.mid]
  push_cast
  rw [zpow_sub₀ two_ne_zero]
  ring

theorem ofPattern_mid (p : ℕ) :
    ((ofPattern F p).mid * 2 ^ (ofPattern F p).exponent : ℚ) = F.rat p := by
  simp only [ofPattern, Format.rat]
  push_cast
  rw [zpow_sub₀ two_ne_zero]
  ring

theorem ofPattern_low {p : ℕ} (hp : 0 < p) :
    ((ofPattern F p).low * 2 ^ (ofPattern F p).exponent : ℚ) = F.mid (p - 1) := by
  have hm : 0 < (F.decode p).1 := Format.decode_fst_pos hp
  simp only [ofPattern, halved_iff hp, Format.mid, Format.decode_pred hp]
  split
  next h =>
    have hpow : 1 ≤ 2 ^ (F.fractionBits + 1) := Nat.one_le_two_pow
    rw [Nat.cast_sub (by omega), h.2, Nat.cast_sub hpow, zpow_sub₀ two_ne_zero, zpow_sub₀ two_ne_zero]
    push_cast
    rw [pow_succ]
    ring
  next h =>
    rw [Nat.cast_sub (by omega), Nat.cast_sub hm, zpow_sub₀ two_ne_zero]
    push_cast
    ring

/-- A basin holds the numbers that round to its float. -/
theorem holds_ofPattern_iff (hF : 0 < F.fractionBits) {p : ℕ} (hp : 0 < p) (hfin : p < F.infinity)
    {y : ℚ} (hy : 0 ≤ y) : (ofPattern F p).Holds y ↔ F.rounded y = p := by
  have hpar := F.decode_fst_mod_two hF p
  have hpar' := F.decode_fst_mod_two hF (p - 1)
  have hup := Format.rounded_le_iff hy hfin
  have hdown := Format.rounded_le_iff (F := F) hy (show p - 1 < F.infinity by omega)
  have heq : F.rounded y = p ↔ F.rounded y ≤ p ∧ ¬ F.rounded y ≤ p - 1 := by omega
  have hclosed : (ofPattern F p).closed = true ↔ (F.decode p).1 % 2 = 0 := decide_eq_true_iff
  rw [heq, hup, hdown, Holds, ofPattern_high, ofPattern_low hp]
  simp only [hclosed]
  -- Of two neighbours one is even, and gets the middle between them.
  split
  next heven =>
    have hodd : ¬ (F.decode (p - 1)).1 % 2 = 0 := by omega
    simp only [heven, hodd, and_true, and_false, or_false, not_lt, ← le_iff_lt_or_eq]
    exact and_comm
  next hodd =>
    have heven : (F.decode (p - 1)).1 % 2 = 0 := by omega
    simp only [heven, hodd, and_true, and_false, or_false, ← le_iff_lt_or_eq, not_le]
    exact and_comm

/-- The first grid that is searched. -/
def firstGrid (b : Basin) : ℤ :=
  ((b.mid.log2 : ℤ) + 1 + b.exponent) * 1233 / 4096 + 2

theorem shortest_eq (b : Basin) (tie : Tie) : b.shortest tie = b.search tie 24 b.firstGrid :=
  rfl

/-- The finest grid that is searched, for the greatest significand of a single with last place
`2 ^ e`, is no coarser than a quarter of that place. -/
theorem finest_grid_le : ∀ i < 254,
    decimalNum (((i : ℕ) - 149 + 24 : ℤ) * 1233 / 4096 + 2 - 23) ((i : ℕ) - 149 - 2) ≤
      decimalDen (((i : ℕ) - 149 + 24 : ℤ) * 1233 / 4096 + 2 - 23) ((i : ℕ) - 149 - 2) := by
  decide +kernel

theorem exponent_single {p : ℕ} (hfin : p < Format.single.infinity) :
    -149 ≤ (Format.single.decode p).2 ∧ (Format.single.decode p).2 ≤ 104 := by
  have hself := Format.single.pattern_decode p
  obtain ⟨hleast, -, hhidden⟩ := Format.single.canonical_decode p
  generalize (Format.single.decode p).1 = m at *
  generalize (Format.single.decode p).2 = e at *
  simp only [Format.pattern, Format.single, Format.minExponent, Format.infinity] at *
  omega

/-- The first grid of a single, from the length of its significand. -/
theorem firstGrid_single {p : ℕ} (hp : 0 < p) :
    ((Format.single.decode p).2 + 1) * 1233 / 4096 + 2 ≤ (ofPattern .single p).firstGrid ∧
      (ofPattern .single p).firstGrid ≤ ((Format.single.decode p).2 + 24) * 1233 / 4096 + 2 := by
  have hbelow := (Format.single.canonical_decode p).below
  have hm : 0 < (Format.single.decode p).1 := Format.decode_fst_pos hp
  have hlow : 2 ≤ (4 * (Format.single.decode p).1).log2 := (Nat.le_log2 (by omega)).mpr (by omega)
  have hhigh : (4 * (Format.single.decode p).1).log2 < 26 := by
    rw [Nat.log2_lt (by omega)]
    simp only [Format.single] at hbelow ⊢
    omega
  simp only [firstGrid, ofPattern]
  omega

/-- One of the grids of a single has a hit: the last is finer than a quarter of the single's last place. -/
theorem exists_hit_single {p : ℕ} (hp : 0 < p) (hfin : p < Format.single.infinity) (tie : Tie) :
    ∃ i < 24, ∃ c, (ofPattern .single p).onGrid? tie ((ofPattern .single p).firstGrid - (i : ℕ)) = some c := by
  obtain ⟨he, he'⟩ := exponent_single hfin
  have hm : 0 < (Format.single.decode p).1 := Format.decode_fst_pos hp
  have hfine : (10 ^ (((Format.single.decode p).2 + 24) * 1233 / 4096 + 2 - 23) : ℚ) ≤
      2 ^ ((Format.single.decode p).2 - 2) := by
    have hcert := finest_grid_le ((Format.single.decode p).2 + 149).toNat (by omega)
    rw [Int.toNat_of_nonneg (by omega), add_sub_cancel_right] at hcert
    have hden := decimalDen_pos (((Format.single.decode p).2 + 24) * 1233 / 4096 + 2 - 23)
      ((Format.single.decode p).2 - 2)
    rw [← div_le_one (by positivity), ← decimalNum_div_decimalDen, div_le_one hden]
    exact_mod_cast hcert
  have hgrid : (10 ^ ((ofPattern .single p).firstGrid - (23 : ℕ)) : ℚ) ≤
      2 ^ (ofPattern .single p).exponent := by
    refine le_trans (zpow_le_zpow_right₀ (by norm_num) ?_) hfine
    have := (firstGrid_single hp).2
    push_cast
    omega
  refine ⟨23, by omega, exists_onGrid? tie ?_ ?_ hgrid⟩
  · simp only [ofPattern]
    split <;> omega
  · simp only [ofPattern]
    omega

/-- The shortest decimal of a single that is not zero rounds to it, and is a neighbour of it on a grid
that is neither too fine nor too coarse to be computed with. -/
theorem shortest_spec {p : ℕ} (hp : 0 < p) (hfin : p < Format.single.infinity) (tie : Tie) :
    Format.single.rounded (((ofPattern .single p).shortest tie).1 *
        10 ^ ((ofPattern .single p).shortest tie).2) = p ∧
      |(((ofPattern .single p).shortest tie).1 * 10 ^ ((ofPattern .single p).shortest tie).2 -
        Format.single.rat p : ℚ)| ≤ 10 ^ ((ofPattern .single p).shortest tie).2 ∧
      -100 ≤ ((ofPattern .single p).shortest tie).2 ∧
      ((ofPattern .single p).shortest tie).2 ≤ 100 := by
  obtain ⟨he, he'⟩ := exponent_single hfin
  obtain ⟨hlow, hhigh⟩ := firstGrid_single hp
  obtain ⟨hhit, hlast, hfirst⟩ := search_spec (exists_hit_single hp hfin tie)
  rw [← shortest_eq] at hhit hlast hfirst
  obtain ⟨hholds, hnear⟩ := onGrid?_spec hhit
  rw [ofPattern_mid] at hnear
  rw [holds_ofPattern_iff (by decide) hp hfin (by positivity)] at hholds
  exact ⟨hholds, hnear, by omega, by omega⟩

end Basin

end TileWorld.Number
