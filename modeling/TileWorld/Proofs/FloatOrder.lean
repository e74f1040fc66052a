import TileWorld.Proofs.NumeralText

/-! The order of singles. Any two that are not NaN are comparable, and they have a difference unless
they are the same infinity. They stand in the order of their ranks, which is linear. -/
namespace TileWorld.Number

open Float.Model (UnpackedFloat)
open Float.Model.UnpackedFloat

/-! ### Differences -/

variable {S : Float.Model.Format}

theorem unpack_eq_notANumber_iff (b : BitVec S.numBits) :
    unpack S b = .notANumber ↔ unpackExponent b = -1#_ ∧ unpackMantissa b ≠ 0#_ := by
  rw [unpack]
  split_ifs <;> simp_all

/-- Packing makes a NaN of nothing else, however large. -/
theorem unpack_pack_eq_notANumber_iff (a : UnpackedFloat) :
    unpack S (pack S a) = .notANumber ↔ a = .notANumber := by
  have hm := S.hm
  have he := Nat.one_lt_two_pow S.he.ne'
  rw [unpack_eq_notANumber_iff]
  fun_cases pack S a with
  | case1 =>
    have hquiet : 1#S.mantissaBitsWithoutImplicit <<< (S.mantissaBitsWithoutImplicit - 1) ≠ 0#_ := by
      have hlt := Nat.pow_lt_pow_right one_lt_two (Nat.sub_one_lt hm.ne')
      rw [ne_eq, ← BitVec.toNat_inj, BitVec.toNat_shiftLeft, BitVec.toNat_zero]
      simp [Nat.shiftLeft_eq, Nat.mod_eq_of_lt hlt]
    simp [packedNaN, hquiet]
  | case2 sign => simp [packedInfinity]
  | case3 sign => simp [packedZero]
  | case4 sign m e hm biased hover => simp [packedInfinity]
  | case5 sign m e hm bits biased hover hnormal =>
    -- The exponent is below the one that infinity and NaN have.
    have hbelow : biased < 2 ^ S.exponentBits - 1 := by omega
    have hne : BitVec.ofNat S.exponentBits biased ≠ -1#_ := by
      rw [ne_eq, BitVec.neg_one_eq_allOnes, ← BitVec.toNat_inj, BitVec.toNat_ofNat, BitVec.toNat_allOnes,
        Nat.mod_eq_of_lt (by omega)]
      exact hbelow.ne
    simp [hne]
  | case6 sign m e hm bits biased hover hsubnormal =>
    have hne : 0#S.exponentBits ≠ -1#_ := by
      rw [ne_eq, BitVec.neg_one_eq_allOnes, ← BitVec.toNat_inj, BitVec.toNat_zero, BitVec.toNat_allOnes]
      omega
    simp [hne]

theorem roundWithAccuracy_ne_notANumber (sign : Sign) (m : ℕ) (e : ℤ) (accuracy : Accuracy) :
    roundWithAccuracy S sign m e accuracy ≠ .notANumber := by
  rw [roundWithAccuracy]
  dsimp only
  split <;> simp

theorem normalize_ne_notANumber (n e : ℤ) (sign : Sign) :
    UnpackedFloat.normalize S n e sign ≠ .notANumber := by
  rw [UnpackedFloat.normalize]
  split
  next => exact roundWithAccuracy_ne_notANumber _ _ _ _
  next => simp
  next => exact roundWithAccuracy_ne_notANumber _ _ _ _

/-- Only what is not a number, or is the same infinity, has no difference. -/
theorem sub_eq_notANumber_iff (a b : UnpackedFloat) :
    sub S a b = .notANumber ↔
      a = .notANumber ∨ b = .notANumber ∨ ∃ sign, a = .infinity sign ∧ b = .infinity sign := by
  cases a with
  | notANumber => simp [sub]
  | infinity sign =>
    cases b with
    | infinity sign' => cases sign <;> cases sign' <;> simp [sub] <;> rfl
    | notANumber | zero | finite => simp [sub]
  | zero sign =>
    cases b with
    | zero sign' =>
      rw [sub]
      split <;> simp
    | notANumber | infinity | finite => simp [sub]
  | finite sign m e hm =>
    cases b with
    | finite sign' m' e' hm' => simp [sub, normalize_ne_notANumber]
    | notANumber | infinity | zero => simp [sub]

/-! ### Ranks -/

/-- Where a number stands among all numbers: the sign counts first, then the exponent, then the
significand. The two zeros stand in one place. -/
def rank : UnpackedFloat → ℤ ×ₗ ℤ ×ₗ ℤ
  | .infinity .negative => toLex (-2, toLex (0, 0))
  | .finite .negative m e _ => toLex (-1, toLex (-e, -m))
  | .zero _ | .notANumber => toLex (0, toLex (0, 0))
  | .finite .positive m e _ => toLex (1, toLex (e, m))
  | .infinity .positive => toLex (2, toLex (0, 0))

theorem lt_iff_rank_lt {a b : UnpackedFloat} (ha : a ≠ .notANumber) (hb : b ≠ .notANumber) :
    a.lt b = true ↔ rank a < rank b := by
  have hsigns : compare Sign.negative Sign.positive = .lt := rfl
  have hless (e e' : ℤ) (m m' : ℕ) :
      (compare e e').then (compare m m') = .lt ↔ e < e' ∨ e = e' ∧ m < m' := by
    rw [Ordering.then_eq_lt, compare_lt_iff_lt, compare_eq_iff_eq, compare_lt_iff_lt]
  have hgreater (e e' : ℤ) (m m' : ℕ) :
      (compare e e').then (compare m m') = .gt ↔ e' < e ∨ e = e' ∧ m' < m := by
    rw [Ordering.then_eq_gt, compare_gt_iff_gt, compare_eq_iff_eq, compare_gt_iff_gt]
  rcases a with (_ | _) | _ | _ | ⟨_ | _, m, e, hm⟩ <;>
    rcases b with (_ | _) | _ | _ | ⟨_ | _, m', e', hm'⟩ <;>
    simp_all [UnpackedFloat.lt, UnpackedFloat.compare, rank, Prod.Lex.toLex_lt_toLex]

/-! ### Singles -/

theorem isInf_iff (x : Float32) : x.isInf = true ↔ ∃ sign, x.toModel.unpack = .infinity sign := by
  change x.toModel.unpack.isInf = true ↔ _
  cases x.toModel.unpack <;> simp [UnpackedFloat.isInf]

/-- Of two singles that are not NaN, either the first is less or the second is not greater. -/
theorem single_lt_eq_not_le {x y : Float32} (h : ¬ (x.isNaN = true ∨ y.isNaN = true)) :
    decide (x < y) = !decide (y ≤ x) := by
  rw [isNaN_iff, isNaN_iff, not_or] at h
  simp only [single_lt_iff, single_le_iff, lt_eq_not_le h.1 h.2, Bool.decide_eq_true]

/-- A NaN is not ordered with anything. -/
theorem single_incomparable {x y : Float32} (h : x.isNaN = true ∨ y.isNaN = true) :
    ¬ x < y ∧ ¬ x ≤ y := by
  rw [isNaN_iff, isNaN_iff, ← compare_eq_none_iff] at h
  rw [single_lt_iff, single_le_iff, UnpackedFloat.lt, UnpackedFloat.le, h]
  decide

theorem pack_unpack (hS : 2 ≤ S.exponentBits) {b : BitVec S.numBits} (hb : unpack S b ≠ .notANumber) :
    pack S (unpack S b) = b := by
  obtain ⟨negative, p, hp, hsigned⟩ := (Format.ofMachine S).exists_signed (toNat_lt_signBit b)
  have hle : p ≤ (Format.ofMachine S).infinity := by
    by_contra hgt
    rw [unpack_eq, hsigned, Format.value_nan negative (not_le.mp hgt) hp] at hb
    exact hb rfl
  exact BitVec.eq_of_toNat_eq (toNat_pack_unpack hS negative hsigned hle)

theorem eq_of_unpack {x y : Float32} (hx : x.toModel.unpack ≠ .notANumber)
    (h : x.toModel.unpack = y.toModel.unpack) : x = y := by
  have hx' : pack .binary32 x.toModel.unpack = x.toBits.toBitVec := pack_unpack (by decide) hx
  have hy' : pack .binary32 y.toModel.unpack = y.toBits.toBitVec :=
    pack_unpack (by decide) fun hn => hx (h.trans hn)
  apply eq_of_toNat_toBits
  exact congrArg BitVec.toNat (hx'.symm.trans ((congrArg _ h).trans hy'))

/-- Two singles have a distance unless one is NaN or both are the same infinity. -/
theorem isNaN_abs_sub_iff (x y : Float32) :
    (x - y).abs.isNaN = true ↔ x.isNaN = true ∨ y.isNaN = true ∨ x = y ∧ x.isInf = true := by
  have habs (a : UnpackedFloat) : a.abs = .notANumber ↔ a = .notANumber := by
    cases a <;> simp [UnpackedFloat.abs]
  have hsub : (x - y).abs.isNaN = true ↔
      sub .binary32 x.toModel.unpack y.toModel.unpack = .notANumber := by
    rw [isNaN_iff]
    exact (unpack_pack_eq_notANumber_iff _).trans ((habs _).trans (unpack_pack_eq_notANumber_iff _))
  have hinfinite : (∃ sign, x.toModel.unpack = .infinity sign ∧ y.toModel.unpack = .infinity sign) ↔
      x = y ∧ x.isInf = true := by
    rw [isInf_iff]
    constructor
    · rintro ⟨sign, hx, hy⟩
      exact ⟨eq_of_unpack (by rw [hx]; simp) (hx.trans hy.symm), sign, hx⟩
    · rintro ⟨rfl, sign, hsign⟩
      exact ⟨sign, hsign, hsign⟩
  rw [hsub, sub_eq_notANumber_iff, hinfinite, isNaN_iff, isNaN_iff]

/-- The rank of a single that is not NaN. -/
def singleRank (x : Float32) : ℤ ×ₗ ℤ ×ₗ ℤ :=
  rank x.toModel.unpack

variable {x y : Float32}

theorem single_lt_iff_rank_lt (hx : x.isNaN = false) (hy : y.isNaN = false) :
    x < y ↔ singleRank x < singleRank y := by
  rw [Bool.eq_false_iff, ne_eq, isNaN_iff] at hx hy
  rw [single_lt_iff, lt_iff_rank_lt hx hy, singleRank, singleRank]

theorem single_le_iff_rank_le (hx : x.isNaN = false) (hy : y.isNaN = false) :
    x ≤ y ↔ singleRank x ≤ singleRank y := by
  have hnumbers : ¬ (y.isNaN = true ∨ x.isNaN = true) :=
    not_or.mpr ⟨Bool.eq_false_iff.mp hy, Bool.eq_false_iff.mp hx⟩
  have hlt : y < x ↔ ¬ x ≤ y := by
    rw [← decide_eq_true_iff (p := y < x), single_lt_eq_not_le hnumbers, Bool.not_eq_true',
      decide_eq_false_iff_not]
  rw [← not_lt, ← single_lt_iff_rank_lt hy hx, hlt, not_not]

end TileWorld.Number
