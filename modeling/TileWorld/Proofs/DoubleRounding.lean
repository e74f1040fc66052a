import TileWorld.Proofs.ShortestDecimal
import TileWorld.Proofs.TimeScale

/-! Singles that are written as short decimals and read as doubles. The double is narrowed to the
single again, unless the decimal is so near to the middle of two singles that the double is that middle. -/
namespace TileWorld.Number

/-- The middle between a single and the next, as an odd multiple of half the single's last place. -/
theorem mid_eq (F : Format) (p : ℕ) :
    F.mid p = ((2 * (F.decode p).1 + 1 : ℕ) : ℚ) * 2 ^ ((F.decode p).2 - 1) := by
  rw [Format.mid, zpow_sub_one₀ two_ne_zero]
  push_cast
  ring

theorem mid_lt_single (p : ℕ) : Format.single.mid p < 2 ^ ((Format.single.decode p).2 + 24) := by
  have hbelow : ((Format.single.decode p).1 + 1 : ℚ) ≤ 2 ^ 24 := by
    exact_mod_cast (Format.single.canonical_decode p).below
  calc Format.single.mid p < ((Format.single.decode p).1 + 1) * 2 ^ (Format.single.decode p).2 := by
        rw [Format.mid]
        gcongr
        norm_num
    _ ≤ 2 ^ 24 * 2 ^ (Format.single.decode p).2 := by gcongr
    _ = 2 ^ ((Format.single.decode p).2 + 24) := by
        rw [add_comm, zpow_add₀ two_ne_zero]
        rfl

theorem mid_nonneg (F : Format) (p : ℕ) : 0 ≤ F.mid p := by
  rw [Format.mid]
  positivity

/-- Doubles hold every single. -/
theorem rat_rounded_single {p : ℕ} (hp : p < Format.single.infinity) :
    Format.double.rounded (Format.single.rat p) < Format.double.infinity ∧
      Format.double.rat (Format.double.rounded (Format.single.rat p)) = Format.single.rat p := by
  have hfinite := (rounded_le_double (Format.rat_nonneg _ p) (by norm_num : 128 ≤ 1000)
    (rat_single_le hp)).1
  refine ⟨hfinite, Format.rat_rounded_of_short ?_ ?_ hfinite⟩
  · refine (Format.single.canonical_decode p).below.trans_le ?_
    decide
  · have := (Format.single.canonical_decode p).least
    simp only [Format.single, Format.double, Format.minExponent] at this ⊢
    omega

/-- Doubles hold the middles between singles. -/
theorem rat_rounded_mid {p : ℕ} (hfin : p < Format.single.infinity) :
    Format.double.rounded (Format.single.mid p) < Format.double.infinity ∧
      Format.double.rat (Format.double.rounded (Format.single.mid p)) = Format.single.mid p := by
  obtain ⟨he, he'⟩ := Basin.exponent_single hfin
  have hle : Format.single.mid p ≤ 2 ^ 128 := by
    calc Format.single.mid p ≤ 2 ^ ((Format.single.decode p).2 + 24) := (mid_lt_single p).le
      _ ≤ 2 ^ (128 : ℤ) := zpow_le_zpow_right₀ (by norm_num) (by omega)
      _ = 2 ^ 128 := rfl
  have hbelow : (Format.single.decode p).1 < 2 ^ 24 := (Format.single.canonical_decode p).below
  have hfinite := (rounded_le_double (mid_nonneg _ p) (by norm_num : 128 ≤ 1000) hle).1
  refine ⟨hfinite, ?_⟩
  rw [mid_eq] at hfinite ⊢
  refine Format.rat_rounded_of_short ?_ ?_ hfinite
  · simp only [Format.double]
    omega
  · simp only [Format.double, Format.minExponent]
    omega

/-- A double does not pass the middle between two singles. -/
theorem rat_rounded_le_mid {p : ℕ} (hfin : p < Format.single.infinity) {y : ℚ} (hy : 0 ≤ y)
    (h : y ≤ Format.single.mid p) :
    Format.double.rat (Format.double.rounded y) ≤ Format.single.mid p := by
  obtain ⟨hfinite, hexact⟩ := rat_rounded_mid hfin
  rw [← hexact]
  exact Format.rat_le_rat hfinite (Format.rounded_mono hy h)

theorem mid_le_rat_rounded {p : ℕ} (hfin : p < Format.single.infinity) {y : ℚ}
    (hfinite : Format.double.rounded y < Format.double.infinity) (h : Format.single.mid p ≤ y) :
    Format.single.mid p ≤ Format.double.rat (Format.double.rounded y) := by
  rw [← (rat_rounded_mid hfin).2]
  exact Format.rat_le_rat hfinite (Format.rounded_mono (mid_nonneg _ p) h)

theorem double_rounded_lt_infinity {y : ℚ} (hy : 0 ≤ y)
    (hfin : Format.single.rounded y < Format.single.infinity) :
    Format.double.rounded y < Format.double.infinity := by
  have hlt := (rounded_single_lt_infinity_iff hy).mp hfin
  have hle : y ≤ 2 ^ 128 := by
    have : (0 : ℚ) < 2 ^ 103 := by positivity
    linarith
  exact (rounded_le_double hy (by norm_num : 128 ≤ 1000) hle).1

/-- The middle below an odd single is half a place away, as the one above it is. -/
theorem mid_pred_eq {p : ℕ} (hodd : (Format.single.decode p).1 % 2 = 1) :
    Format.single.mid (p - 1) =
      ((2 * (Format.single.decode p).1 - 1 : ℕ) : ℚ) * 2 ^ ((Format.single.decode p).2 - 1) := by
  have hp : 0 < p := Nat.pos_of_ne_zero fun h => by
    rw [Format.decode_fst_eq_zero_iff.mpr h] at hodd
    omega
  have hne : ¬ ((Format.single.decode p).2 ≠ Format.single.minExponent ∧
      (Format.single.decode p).1 = 2 ^ Format.single.fractionBits) := by
    rintro ⟨-, h⟩
    rw [h] at hodd
    exact absurd hodd (by decide)
  rw [mid_eq, Format.decode_pred hp, if_neg hne]
  congr 2
  omega

/-- A short decimal whose double is the middle next to an odd single is that middle, or is the one
that nearly meets it. -/
theorem eq_of_rounded_eq_middle {p c M : ℕ} {g : ℤ} (hp : 0 < p) (hfin : p < Format.single.infinity)
    (hround : Format.single.rounded (c * 10 ^ g) = p)
    (hnear : |(c * 10 ^ g - Format.single.rat p : ℚ)| ≤ 10 ^ g)
    (hbelow : (c * 10 ^ g : ℚ) < 2 ^ ((Format.single.decode p).2 + 24))
    (hM : M = 2 * (Format.single.decode p).1 + 1 ∨ M + 1 = 2 * (Format.single.decode p).1)
    (hy : Format.double.rat (Format.double.rounded (c * 10 ^ g)) =
      M * 2 ^ ((Format.single.decode p).2 - 1)) :
    (c * 10 ^ g : ℚ) = M * 2 ^ ((Format.single.decode p).2 - 1) ∨
      ((Format.single.decode p).2 - 1 = -108 ∨ (Format.single.decode p).2 - 1 = -107) ∧ M = nearMiss := by
  obtain ⟨he, he'⟩ := Basin.exponent_single hfin
  have hm : (Format.single.decode p).1 < 2 ^ 24 := (Format.single.canonical_decode p).below
  have hd : (0 : ℚ) ≤ c * 10 ^ g := by positivity
  have hpos : (0 : ℚ) < c * 10 ^ g := by
    refine hd.lt_of_ne fun hzero => ?_
    rw [← hzero, Format.rounded_zero] at hround
    exact hp.ne hround
  have hmiss : |(c * 10 ^ g - M * 2 ^ ((Format.single.decode p).2 - 1) : ℚ)| ≤
      2 ^ ((Format.single.decode p).2 - 1) / 2 ^ 29 := by
    have hleast : Format.double.minExponent ≤ (Format.single.decode p).2 - 29 := by
      simp only [Format.double, Format.minExponent]
      omega
    have hplace : (Format.single.decode p).2 - 29 + Format.double.fractionBits + 1 =
        (Format.single.decode p).2 + 24 := by
      simp only [Format.double]
      omega
    have hle := Format.abs_sub_rounded_le hpos hleast (hbelow.trans_eq (by rw [hplace]))
      (double_rounded_lt_infinity hd (hround.trans_lt hfin))
    rw [hy] at hle
    refine hle.trans_eq ?_
    rw [← zpow_natCast, ← zpow_sub₀ two_ne_zero]
    congr 1
    push_cast
    ring
  have hhalf : |(M * 2 ^ ((Format.single.decode p).2 - 1) - Format.single.rat p : ℚ)| =
      2 ^ ((Format.single.decode p).2 - 1) := by
    have hstep : |(M - 2 * (Format.single.decode p).1 : ℚ)| = 1 := by
      rcases hM with hM | hM
      · rw [hM]
        push_cast
        rw [add_sub_cancel_left, abs_one]
      · have : (M : ℚ) + 1 = 2 * (Format.single.decode p).1 := by exact_mod_cast hM
        rw [← this, sub_add_cancel_left, abs_neg, abs_one]
    have hsplit : (M * 2 ^ ((Format.single.decode p).2 - 1) - Format.single.rat p : ℚ) =
        (M - 2 * (Format.single.decode p).1) * 2 ^ ((Format.single.decode p).2 - 1) := by
      rw [Format.rat, zpow_sub_one₀ two_ne_zero]
      ring
    rw [hsplit, abs_mul, hstep, one_mul, abs_of_pos (by positivity)]
  refine eq_middle_of_near (by omega) (by omega) (by omega) (by omega) ?_ hmiss
  -- The decimal lies next to the middle, so a step of its grid is about half a place.
  have htriangle := abs_sub_le (M * 2 ^ ((Format.single.decode p).2 - 1) : ℚ) (c * 10 ^ g)
    (Format.single.rat p)
  rw [hhalf, abs_sub_comm (M * 2 ^ ((Format.single.decode p).2 - 1) : ℚ)] at htriangle
  linarith

/-- The odd singles whose decimal nearly meets the middle to the next. -/
theorem eq_of_nearMiss {p : ℕ} (hm : 2 * (Format.single.decode p).1 + 1 = nearMiss)
    (he : (Format.single.decode p).2 - 1 = -108 ∨ (Format.single.decode p).2 - 1 = -107) :
    p = 0x15ae43fd ∨ p = 0x162e43fd := by
  have hself := Format.single.pattern_decode p
  have hm' : (Format.single.decode p).1 = 11420669 := by
    simp only [nearMiss] at hm
    omega
  rw [hm'] at hself
  rcases he with he | he
  · rw [show (Format.single.decode p).2 = -107 by omega] at hself
    exact Or.inl hself.symm
  · rw [show (Format.single.decode p).2 = -106 by omega] at hself
    exact Or.inr hself.symm

/-- A single comes back from a short decimal that is read as a double, with two candidates for an
exception. -/
theorem rounded_rat_rounded {p c : ℕ} {g : ℤ} (hp : 0 < p) (hfin : p < Format.single.infinity)
    (hround : Format.single.rounded (c * 10 ^ g) = p)
    (hnear : |(c * 10 ^ g - Format.single.rat p : ℚ)| ≤ 10 ^ g) :
    Format.single.rounded (Format.double.rat (Format.double.rounded (c * 10 ^ g))) = p ∨
      p = 0x15ae43fd ∨ p = 0x162e43fd := by
  have hd : (0 : ℚ) ≤ c * 10 ^ g := by positivity
  have hpred : p - 1 < Format.single.infinity := by omega
  have hfinite := double_rounded_lt_infinity hd (hround.trans_lt hfin)
  have hpar := Format.single.decode_fst_mod_two (by decide) p
  have hpar' := Format.single.decode_fst_mod_two (by decide) (p - 1)
  have hup := (Format.rounded_le_iff hd hfin).mp hround.le
  have hdown := mt (Format.rounded_le_iff hd hpred).mpr (by omega)
  have hle : (c * 10 ^ g : ℚ) ≤ Format.single.mid p := hup.elim le_of_lt fun h => h.1.le
  have hge : Format.single.mid (p - 1) ≤ (c * 10 ^ g : ℚ) := by
    by_contra hlt
    exact hdown (Or.inl (not_le.mp hlt))
  have hyle := rat_rounded_le_mid hfin hd hle
  have hyge := mid_le_rat_rounded hpred hfinite hge
  have hy := Format.double.rat_nonneg (Format.double.rounded (c * 10 ^ g))
  have hback : Format.single.rounded (Format.double.rat (Format.double.rounded (c * 10 ^ g))) = p ↔
      Format.single.rounded (Format.double.rat (Format.double.rounded (c * 10 ^ g))) ≤ p ∧
        ¬ Format.single.rounded (Format.double.rat (Format.double.rounded (c * 10 ^ g))) ≤ p - 1 := by
    omega
  rw [hback, Format.rounded_le_iff hy hfin, Format.rounded_le_iff hy hpred]
  rcases Nat.mod_two_eq_zero_or_one (Format.single.decode p).1 with heven | hodd
  · -- An even single has the middles on both sides.
    have hodd : ¬ (Format.single.decode (p - 1)).1 % 2 = 0 := by omega
    refine Or.inl ⟨hyle.lt_or_eq.imp_right fun h => ⟨h, heven⟩, ?_⟩
    rintro (h | h)
    · exact h.not_ge hyge
    · exact hodd h.2
  have heven : (Format.single.decode (p - 1)).1 % 2 = 0 := by omega
  have hlt : (c * 10 ^ g : ℚ) < Format.single.mid p := hup.resolve_right fun h => by omega
  have hgt : Format.single.mid (p - 1) < (c * 10 ^ g : ℚ) := by
    refine hge.lt_of_ne fun heq => hdown (Or.inr ⟨heq.symm, heven⟩)
  have hbelow := hlt.trans (mid_lt_single p)
  rcases hyle.lt_or_eq with hylt | hyeq
  · rcases hyge.lt_or_eq with hygt | hyeq'
    · refine Or.inl ⟨Or.inl hylt, ?_⟩
      rintro (h | h)
      · exact h.not_ge hyge
      · exact hygt.ne' h.1
    · -- Below an odd single no decimal comes that near to the middle.
      rw [mid_pred_eq hodd] at hyeq' hgt
      have := eq_of_rounded_eq_middle hp hfin hround hnear hbelow (Or.inr (by omega)) hyeq'.symm
      rcases this with heq | ⟨-, hmiss⟩
      · exact absurd heq hgt.ne'
      · simp only [nearMiss] at hmiss
        omega
  · rw [mid_eq] at hyeq hlt
    have := eq_of_rounded_eq_middle hp hfin hround hnear hbelow (Or.inl rfl) hyeq
    rcases this with heq | ⟨he, hmiss⟩
    · exact absurd heq hlt.ne
    · exact Or.inr (eq_of_nearMiss hmiss he)

end TileWorld.Number
