import Mathlib
import TileWorld.Proofs.Rounding

/-! Machine floats against exact numbers. A machine takes a word apart into sign, significand and
exponent, computes, rounds and puts the word together; what it puts together is the pattern nearest
to the exact result. -/
namespace TileWorld.Number

open Float.Model (UnpackedFloat totalExponent)
open Float.Model.UnpackedFloat

/-- The widths of a machine's format. -/
def Format.ofMachine (S : Float.Model.Format) : Format :=
  ⟨S.mantissaBitsWithoutImplicit, S.exponentBits⟩

def signOf (negative : Bool) : Sign :=
  if negative then .negative else .positive

/-- A value as the machine takes it apart. -/
def Value.unpacked : Value → UnpackedFloat
  | .nan => .notANumber
  | .infinite negative => .infinity (signOf negative)
  | .finite negative m e =>
    if h : m = 0 then .zero (signOf negative)
    else .finite (signOf negative) m e (Nat.pos_of_ne_zero h)

variable {S : Float.Model.Format}

/-! ### Words -/

theorem toNat_unpackMantissa (b : BitVec S.numBits) :
    (unpackMantissa b).toNat = b.toNat % 2 ^ S.mantissaBitsWithoutImplicit := by
  have := S.hm
  simp [unpackMantissa, BitVec.extractLsb, BitVec.extractLsb'_toNat,
    show S.mantissaBitsWithoutImplicit - 1 + 1 = S.mantissaBitsWithoutImplicit by omega]

theorem toNat_unpackExponent (b : BitVec S.numBits) :
    (unpackExponent b).toNat = b.toNat / 2 ^ S.mantissaBitsWithoutImplicit % 2 ^ S.exponentBits := by
  have := S.he
  simp [unpackExponent, BitVec.extractLsb, BitVec.extractLsb'_toNat, Nat.shiftRight_eq_div_pow,
    show S.mantissaBitsWithoutImplicit + S.exponentBits - 1 - S.mantissaBitsWithoutImplicit + 1 =
      S.exponentBits by omega]

theorem toNat_unpackSign (b : BitVec S.numBits) :
    (unpackSign b).toNat = b.toNat / 2 ^ (S.mantissaBitsWithoutImplicit + S.exponentBits) := by
  have hlt : b.toNat < 2 * 2 ^ (S.mantissaBitsWithoutImplicit + S.exponentBits) := by
    rw [← pow_succ']
    exact b.isLt.trans_eq (by rw [Float.Model.Format.numBits]; congr 1; omega)
  have hbit := Nat.div_lt_of_lt_mul (Nat.mul_comm 2 _ ▸ hlt)
  simpa [unpackSign, BitVec.extractLsb, BitVec.extractLsb'_toNat, Nat.shiftRight_eq_div_pow]
    using Nat.mod_eq_of_lt hbit

theorem toNat_packComponents (negative : Bool) (e : BitVec S.exponentBits)
    (m : BitVec S.mantissaBitsWithoutImplicit) :
    (packComponents S (signOf negative) e m).toNat =
      (Format.ofMachine S).signed negative (e.toNat * 2 ^ S.mantissaBitsWithoutImplicit + m.toNat) := by
  rw [packComponents, BitVec.toNat_append, BitVec.toNat_append,
    ← Nat.shiftLeft_add_eq_or_of_lt m.isLt, ← Nat.shiftLeft_add_eq_or_of_lt e.isLt]
  simp only [Format.signed, Format.signBit, Format.ofMachine, Nat.shiftLeft_eq, one_mul]
  cases negative
  · simp [signOf, Sign.toBitVec]
  · simp only [signOf, Sign.toBitVec, if_true, BitVec.toNat_ofNat]
    ring

/-- What a word denotes, by its three fields. -/
theorem Format.value_signed (F : Format) (negative : Bool) {a q : ℕ} (ha : a < 2 ^ F.exponentBits)
    (hq : q < 2 ^ F.fractionBits) :
    F.value (F.signed negative (a * 2 ^ F.fractionBits + q)) =
      if a = 2 ^ F.exponentBits - 1 then if q = 0 then .infinite negative else .nan
      else if a = 0 then .finite negative q F.minExponent
      else .finite negative (q + 2 ^ F.fractionBits) (F.minExponent + (a - 1 : ℕ)) := by
  have hpos : 0 < 2 ^ F.fractionBits := by positivity
  have hpattern : a * 2 ^ F.fractionBits + q < F.signBit := by
    calc a * 2 ^ F.fractionBits + q < (a + 1) * 2 ^ F.fractionBits := by linarith
      _ ≤ 2 ^ F.exponentBits * 2 ^ F.fractionBits := by gcongr; omega
      _ = F.signBit := by rw [signBit, Nat.shiftLeft_eq, one_mul, pow_add, mul_comm]
  have hsign : decide (F.signBit ≤ F.signed negative (a * 2 ^ F.fractionBits + q)) = negative := by
    cases negative <;> simp [signed, hpattern]
  have hmod : F.signed negative (a * 2 ^ F.fractionBits + q) % F.signBit =
      a * 2 ^ F.fractionBits + q := by
    cases negative <;> simp [signed, Nat.mod_eq_of_lt hpattern]
  have hdiv : (a * 2 ^ F.fractionBits + q) / 2 ^ F.fractionBits = a := by
    rw [add_comm, Nat.add_mul_div_right _ _ hpos, Nat.div_eq_of_lt hq, zero_add]
  have hrem : (a * 2 ^ F.fractionBits + q) % 2 ^ F.fractionBits = q := by
    rw [add_comm, Nat.add_mul_mod_self_right, Nat.mod_eq_of_lt hq]
  simp only [value, hsign, hmod, decode, infinity, Nat.shiftRight_eq_div_pow, Nat.shiftLeft_eq, one_mul,
    hdiv, hrem]
  rcases (Nat.le_sub_one_of_lt ha).eq_or_lt with rfl | hlt
  · simp
  · have hfinite : a * 2 ^ F.fractionBits + q < (2 ^ F.exponentBits - 1) * 2 ^ F.fractionBits := by
      calc a * 2 ^ F.fractionBits + q < (a + 1) * 2 ^ F.fractionBits := by linarith
        _ ≤ (2 ^ F.exponentBits - 1) * 2 ^ F.fractionBits := by gcongr; omega
    rw [if_pos hfinite, if_neg hlt.ne]
    split <;> rfl

theorem Format.infinity_lt_signBit (F : Format) : F.infinity < F.signBit := by
  have : 0 < 2 ^ F.exponentBits := by positivity
  rw [infinity, signBit, Nat.shiftLeft_eq, Nat.shiftLeft_eq, Nat.shiftLeft_eq, one_mul, one_mul, pow_add,
    mul_comm (2 ^ F.fractionBits)]
  gcongr
  omega

theorem Format.value_finite {F : Format} (negative : Bool) {p : ℕ} (hp : p < F.infinity) :
    F.value (F.signed negative p) = .finite negative (F.decode p).1 (F.decode p).2 := by
  have hsign := hp.trans F.infinity_lt_signBit
  cases negative <;> simp [value, signed, Nat.mod_eq_of_lt hsign, hp, hsign]

theorem Format.value_infinity (F : Format) (negative : Bool) :
    F.value (F.signed negative F.infinity) = .infinite negative := by
  have hsign := F.infinity_lt_signBit
  cases negative <;> simp [value, signed, Nat.mod_eq_of_lt hsign, hsign]

theorem Format.value_nan {F : Format} (negative : Bool) {p : ℕ} (hp : F.infinity < p)
    (hsign : p < F.signBit) : F.value (F.signed negative p) = .nan := by
  cases negative <;> simp [value, signed, Nat.mod_eq_of_lt hsign, hp.le, hp.ne']

/-- Every word is a magnitude pattern under a sign. -/
theorem Format.exists_signed (F : Format) {bits : ℕ} (h : bits < 2 * F.signBit) :
    ∃ negative p, p < F.signBit ∧ bits = F.signed negative p := by
  rcases Nat.lt_or_ge bits F.signBit with hlt | hge
  · exact ⟨false, bits, hlt, rfl⟩
  · exact ⟨true, bits - F.signBit, by omega, by rw [signed, if_pos rfl]; omega⟩

/-- A word is put together from its fields. -/
theorem toNat_eq_signed (b : BitVec S.numBits) :
    b.toNat = (Format.ofMachine S).signed (decide (unpackSign b ≠ 0#1))
      ((unpackExponent b).toNat * 2 ^ (Format.ofMachine S).fractionBits + (unpackMantissa b).toNat) := by
  have hlow : b.toNat % 2 ^ (S.mantissaBitsWithoutImplicit + S.exponentBits) =
      (unpackExponent b).toNat * 2 ^ S.mantissaBitsWithoutImplicit + (unpackMantissa b).toNat := by
    rw [toNat_unpackExponent, toNat_unpackMantissa, pow_add, Nat.mod_mul]
    ring
  have hsplit := Nat.div_add_mod' b.toNat (2 ^ (S.mantissaBitsWithoutImplicit + S.exponentBits))
  rw [hlow, ← toNat_unpackSign] at hsplit
  have hbit := (unpackSign b).isLt
  simp only [Format.signed, Format.signBit, Format.ofMachine, Nat.shiftLeft_eq, one_mul,
    ← BitVec.toNat_inj, BitVec.toNat_zero, ne_eq, decide_not, Bool.not_eq_true', decide_eq_false_iff_not]
  split
  next h =>
    rw [show (unpackSign b).toNat = 1 by omega, one_mul] at hsplit
    exact hsplit.symm
  next h =>
    rw [not_not.mp h, zero_mul, zero_add] at hsplit
    exact hsplit.symm

theorem minExponent_ofMachine :
    (Format.ofMachine S).minExponent = 1 - (S.exponentBias + S.mantissaBitsWithoutImplicit : ℤ) := by
  have hbias : (2 ^ (S.exponentBits - 1) : ℕ) = S.exponentBias + 1 := by
    have : 0 < 2 ^ (S.exponentBits - 1) := by positivity
    rw [Float.Model.Format.exponentBias]
    omega
  simp only [Format.minExponent, Format.ofMachine, Nat.shiftLeft_eq, one_mul, hbias]
  omega

/-- Taking a word apart gives the value that it denotes. -/
theorem unpack_eq (b : BitVec S.numBits) :
    unpack S b = ((Format.ofMachine S).value b.toNat).unpacked := by
  have hvalue := (Format.ofMachine S).value_signed (decide (unpackSign b ≠ 0#1))
    (unpackExponent b).isLt (unpackMantissa b).isLt
  have hones : (unpackExponent b).toNat = 2 ^ S.exponentBits - 1 ↔ unpackExponent b = -1#_ := by
    rw [BitVec.neg_one_eq_allOnes, ← BitVec.toNat_inj, BitVec.toNat_allOnes]
  have hzero : (unpackExponent b).toNat = 0 ↔ unpackExponent b = 0#_ := by
    rw [← BitVec.toNat_inj, BitVec.toNat_zero]
  have hzero' : (unpackMantissa b).toNat = 0 ↔ unpackMantissa b = 0#_ := by
    rw [← BitVec.toNat_inj, BitVec.toNat_zero]
  have hsign : signOf (decide (unpackSign b ≠ 0#1)) = Sign.ofBitVec (unpackSign b) := by
    simp [signOf, Sign.ofBitVec]
  rw [toNat_eq_signed b, hvalue, unpack]
  generalize decide (unpackSign b ≠ 0#1) = negative at hsign
  simp only [minExponent_ofMachine]
  simp only [Format.ofMachine, hones, hzero, hzero', ← hsign]
  split_ifs with hinf hnan hsub hzero
  · rfl
  · rfl
  · rw [Value.unpacked, dif_pos (hzero'.mpr hzero)]
  · rw [Value.unpacked, dif_neg (mt hzero'.mp hzero)]
    congr 1
    rw [hsub, BitVec.toNat_zero]
    omega
  · have happend : (1#1 ++ unpackMantissa b).toNat =
        (unpackMantissa b).toNat + 2 ^ S.mantissaBitsWithoutImplicit := by
      rw [BitVec.toNat_append, ← Nat.shiftLeft_add_eq_or_of_lt (unpackMantissa b).isLt]
      simp [Nat.shiftLeft_eq, add_comm]
    have hpos : 0 < (unpackExponent b).toNat := Nat.pos_of_ne_zero (mt hzero.mp hsub)
    rw [Value.unpacked, dif_neg (by positivity)]
    congr 1
    omega

theorem toNat_packedInfinity (negative : Bool) :
    (packedInfinity S (signOf negative)).toNat =
      (Format.ofMachine S).signed negative (Format.ofMachine S).infinity := by
  rw [packedInfinity, toNat_packComponents, BitVec.neg_one_eq_allOnes, BitVec.toNat_allOnes]
  simp [Format.infinity, Format.ofMachine, Nat.shiftLeft_eq]

theorem toNat_packedZero (negative : Bool) :
    (packedZero S (signOf negative)).toNat = (Format.ofMachine S).signed negative 0 := by
  rw [packedZero, toNat_packComponents]
  simp

/-- A significand and an exponent are put together as the format has them, and as infinity if they
are beyond it. -/
theorem toNat_pack_finite (hS : 2 ≤ S.exponentBits) (negative : Bool) {e : ℤ} {m : ℕ} (hm : 0 < m)
    (h : (Format.ofMachine S).Canonical e m) :
    (pack S (.finite (signOf negative) m e hm)).toNat =
      (Format.ofMachine S).signed negative
        (min (Format.ofMachine S).infinity ((Format.ofMachine S).pattern e m)) := by
  obtain ⟨hleast, hbelow, hhidden⟩ := h
  have hfields : (Format.ofMachine S).fractionBits = S.mantissaBitsWithoutImplicit := rfl
  have hbiased : (e + S.exponentBias + S.mantissaBitsWithoutImplicit).toNat =
      (e - (Format.ofMachine S).minExponent).toNat + 1 := by
    rw [minExponent_ofMachine] at hleast ⊢
    omega
  generalize hplace : (e - (Format.ofMachine S).minExponent).toNat = a at hbiased
  have hpattern : (Format.ofMachine S).pattern e m = a * 2 ^ S.mantissaBitsWithoutImplicit + m := by
    rw [Format.pattern, hplace, hfields]
  have hinfinity : (Format.ofMachine S).infinity =
      (2 ^ S.exponentBits - 1) * 2 ^ S.mantissaBitsWithoutImplicit := by
    simp [Format.infinity, Format.ofMachine, Nat.shiftLeft_eq]
  rw [hfields, pow_succ] at hbelow
  rw [hfields] at hhidden
  have hlog : m.log2 + 1 = S.mantissaBits ↔ 2 ^ S.mantissaBitsWithoutImplicit ≤ m := by
    rw [← Nat.le_log2 hm.ne', Float.Model.Format.mantissaBits]
    have := (Nat.log2_lt hm.ne').mpr (pow_succ 2 S.mantissaBitsWithoutImplicit ▸ hbelow)
    omega
  have hcapacity : 4 ≤ 2 ^ S.exponentBits := Nat.pow_le_pow_right two_pos hS
  simp only [pack, hbiased, hpattern, hinfinity, hlog]
  split_ifs with hover hnormal
  · -- The least significand at this exponent is already infinity.
    have hm' : 2 ^ S.mantissaBitsWithoutImplicit ≤ m := hhidden.resolve_left (by omega)
    rw [toNat_packedInfinity, hinfinity, min_eq_left]
    calc (2 ^ S.exponentBits - 1) * 2 ^ S.mantissaBitsWithoutImplicit
        ≤ (a + 1) * 2 ^ S.mantissaBitsWithoutImplicit := by gcongr; omega
      _ ≤ a * 2 ^ S.mantissaBitsWithoutImplicit + m := by linarith
  · have hm' : m = 2 ^ S.mantissaBitsWithoutImplicit + m % 2 ^ S.mantissaBitsWithoutImplicit := by
      have hdiv : m / 2 ^ S.mantissaBitsWithoutImplicit = 1 :=
        Nat.div_eq_of_lt_le (by omega) (by omega)
      have := Nat.div_add_mod' m (2 ^ S.mantissaBitsWithoutImplicit)
      rw [hdiv, one_mul] at this
      exact this.symm
    have hsum : a * 2 ^ S.mantissaBitsWithoutImplicit + m =
        (a + 1) * 2 ^ S.mantissaBitsWithoutImplicit + m % 2 ^ S.mantissaBitsWithoutImplicit := by
      linarith
    have hfinite : a * 2 ^ S.mantissaBitsWithoutImplicit + m ≤
        (2 ^ S.exponentBits - 1) * 2 ^ S.mantissaBitsWithoutImplicit := by
      calc a * 2 ^ S.mantissaBitsWithoutImplicit + m ≤ (a + 2) * 2 ^ S.mantissaBitsWithoutImplicit := by
            linarith
        _ ≤ (2 ^ S.exponentBits - 1) * 2 ^ S.mantissaBitsWithoutImplicit := by gcongr; omega
    rw [toNat_packComponents, BitVec.toNat_ofNat, BitVec.toNat_ofNat, Nat.mod_eq_of_lt (by omega),
      min_eq_right hfinite, hsum]
  · have hm' : m < 2 ^ S.mantissaBitsWithoutImplicit := not_le.mp hnormal
    have ha : a = 0 := by
      have := hhidden.resolve_right hnormal
      omega
    have hfinite : m ≤ (2 ^ S.exponentBits - 1) * 2 ^ S.mantissaBitsWithoutImplicit := by
      calc m ≤ 1 * 2 ^ S.mantissaBitsWithoutImplicit := by omega
        _ ≤ (2 ^ S.exponentBits - 1) * 2 ^ S.mantissaBitsWithoutImplicit := by gcongr; omega
    rw [toNat_packComponents, ha, zero_mul, zero_add, min_eq_right hfinite, BitVec.toNat_zero,
      BitVec.toNat_ofNat, Nat.mod_eq_of_lt hm', zero_mul, zero_add]

/-! ### Rounding -/

/-- The number of which a machine keeps the whole part and two more bits: the first behind the
point, and whether any after that is set. -/
def Keeps (em : ExtendedMantissa) (z : ℚ) : Prop :=
  match em.roundBit, em.stickyBit with
  | false, false => z = em.mantissa
  | false, true => em.mantissa < z ∧ z < em.mantissa + 1 / 2
  | true, false => z = em.mantissa + 1 / 2
  | true, true => em.mantissa + 1 / 2 < z ∧ z < em.mantissa + 1

theorem Keeps.shiftRightOne {em : ExtendedMantissa} {z : ℚ} (h : Keeps em z) :
    Keeps em.shiftRightOne (z / 2) := by
  obtain ⟨m, roundBit, stickyBit⟩ := em
  have hsplit : ((m / 2 : ℕ) : ℚ) * 2 + (m % 2 : ℕ) = m := by
    exact_mod_cast Nat.div_add_mod' m 2
  -- The bit that leaves the whole part becomes the first behind the point.
  rcases Nat.mod_two_eq_zero_or_one m with hm | hm <;> rw [hm] at hsplit <;> push_cast at hsplit <;>
    cases roundBit <;> cases stickyBit <;>
    simp only [Keeps, ExtendedMantissa.shiftRightOne, hm, Bool.or_self, Bool.or_true, Bool.or_false,
      bne_self_eq_false, show (1 != 0) = true from rfl] at h ⊢ <;>
    first
    | linarith
    | constructor <;> linarith

theorem Keeps.shiftRight {em : ExtendedMantissa} {z : ℚ} (h : Keeps em z) (n : ℕ) :
    Keeps (em >>> n) (z / 2 ^ n) := by
  change Keeps (n.repeat ExtendedMantissa.shiftRightOne em) _
  induction n with
  | zero => simpa [Nat.repeat] using h
  | succ n ih =>
    rw [Nat.repeat, pow_succ, ← div_div]
    exact ih.shiftRightOne

/-- The kept bits are enough to round to the nearest. -/
theorem Keeps.roundsTo {em : ExtendedMantissa} {z : ℚ} (h : Keeps em z) :
    RoundsTo z em.roundedMantissa := by
  obtain ⟨m, roundBit, stickyBit⟩ := em
  cases roundBit <;> cases stickyBit <;> simp only [Keeps] at h
  case false.false =>
    rw [h]
    exact roundsTo_natCast m
  case false.true =>
    change RoundsTo z m
    refine ⟨abs_le.mpr ⟨by linarith, by linarith⟩, fun heq => ?_⟩
    rw [abs_of_pos (by linarith)] at heq
    linarith
  case true.false =>
    change RoundsTo z (m + m % 2)
    rcases Nat.mod_two_eq_zero_or_one m with hm | hm
    · refine ⟨?_, fun _ => by omega⟩
      rw [h, hm]
      norm_num
    · refine ⟨?_, fun _ => by omega⟩
      rw [h, hm]
      norm_num
  case true.true =>
    change RoundsTo z (m + 1)
    refine ⟨abs_le.mpr ⟨by push_cast; linarith, by push_cast; linarith⟩, fun heq => ?_⟩
    push_cast at heq
    rw [abs_of_neg (by linarith)] at heq
    linarith

theorem minExponent_eq : S.minExponent = (Format.ofMachine S).minExponent := by
  simp only [Float.Model.Format.minExponent, Float.Model.Format.mantissaBits, Format.minExponent,
    Format.ofMachine, Nat.shiftLeft_eq, one_mul]
  push_cast
  ring

/-- The machine aims at the last place that the size of a number allows. -/
theorem places_targetExponent {m : ℕ} (hm : 0 < m) (e : ℤ) :
    (Format.ofMachine S).Places (m * 2 ^ e) (S.targetExponent (totalExponent m e)) := by
  have hfields : (Format.ofMachine S).fractionBits = S.mantissaBitsWithoutImplicit := rfl
  have htarget : S.targetExponent (totalExponent m e) =
      max (m.log2 + e - S.mantissaBitsWithoutImplicit) (Format.ofMachine S).minExponent := by
    rw [Float.Model.Format.targetExponent, minExponent_eq, totalExponent, Float.Model.Format.mantissaBits]
    congr 1
    omega
  have hlow : (2 : ℚ) ^ ((m.log2 : ℤ) + e) ≤ m * 2 ^ e := by
    have : (2 : ℚ) ^ m.log2 ≤ m := by exact_mod_cast Nat.log2_self_le hm.ne'
    rw [zpow_add₀ two_ne_zero, zpow_natCast]
    gcongr
  have hhigh : (m * 2 ^ e : ℚ) < 2 ^ ((m.log2 : ℤ) + e + 1) := by
    have : (m : ℚ) < 2 ^ (m.log2 + 1) := by exact_mod_cast Nat.lt_log2_self
    rw [add_right_comm, zpow_add₀ two_ne_zero, ← Nat.cast_succ, zpow_natCast]
    gcongr
  rw [htarget]
  refine ⟨le_max_right _ _, hhigh.trans_le ?_, ?_⟩
  · apply zpow_le_zpow_right₀ (by norm_num)
    have := le_max_left (m.log2 + e - S.mantissaBitsWithoutImplicit : ℤ) (Format.ofMachine S).minExponent
    rw [hfields]
    omega
  · rcases max_cases (m.log2 + e - S.mantissaBitsWithoutImplicit : ℤ) (Format.ofMachine S).minExponent
      with h | h
    · refine Or.inr ?_
      rwa [h.1, hfields, sub_add_cancel]
    · exact Or.inl h.1

/-- A carry that makes a significand too long moves it on by one place, with nothing lost. -/
theorem shiftToTargetExponent_carry {q : ℕ} {t : ℤ} (ht : (Format.ofMachine S).minExponent ≤ t)
    (hq : q ≤ 2 ^ ((Format.ofMachine S).fractionBits + 1))
    (hhidden : t = (Format.ofMachine S).minExponent ∨ 2 ^ (Format.ofMachine S).fractionBits ≤ q) :
    (Format.ofMachine S).Canonical (shiftToTargetExponent S q t .exact).2
        (shiftToTargetExponent S q t .exact).1.mantissa ∧
      (Format.ofMachine S).pattern (shiftToTargetExponent S q t .exact).2
        (shiftToTargetExponent S q t .exact).1.mantissa = (Format.ofMachine S).pattern t q := by
  have hfields : (Format.ofMachine S).fractionBits = S.mantissaBitsWithoutImplicit := rfl
  have hshift {n : ℕ} (h : (S.targetExponent (totalExponent q t) - t).toNat = n) :
      shiftToTargetExponent S q t .exact =
        (ExtendedMantissa.ofMantissaAndAccuracy q .exact >>> n, t + n) := by
    rw [shiftToTargetExponent, shiftToExponent, h]
  have htarget : S.targetExponent (totalExponent q t) =
      max (q.log2 + t - S.mantissaBitsWithoutImplicit) (Format.ofMachine S).minExponent := by
    rw [Float.Model.Format.targetExponent, minExponent_eq, totalExponent, Float.Model.Format.mantissaBits]
    congr 1
    omega
  rcases hq.lt_or_eq with hlt | rfl
  · have hlog : q.log2 ≤ S.mantissaBitsWithoutImplicit := by
      rcases Nat.eq_zero_or_pos q with rfl | hpos
      · simp
      · exact Nat.lt_succ_iff.mp ((Nat.log2_lt hpos.ne').mpr hlt)
    rw [hshift (n := 0) (by omega), Nat.cast_zero, add_zero]
    exact ⟨⟨ht, hlt, hhidden⟩, rfl⟩
  · have hlog : (2 ^ ((Format.ofMachine S).fractionBits + 1)).log2 =
        S.mantissaBitsWithoutImplicit + 1 := Nat.log2_two_pow
    have hhalf : 2 ^ ((Format.ofMachine S).fractionBits + 1) / 2 = 2 ^ (Format.ofMachine S).fractionBits := by
      rw [pow_succ, Nat.mul_div_cancel _ two_pos]
    rw [hshift (n := 1) (by omega)]
    change (Format.ofMachine S).Canonical (t + 1) (2 ^ ((Format.ofMachine S).fractionBits + 1) / 2) ∧
      (Format.ofMachine S).pattern (t + 1) (2 ^ ((Format.ofMachine S).fractionBits + 1) / 2) = _
    rw [hhalf]
    refine ⟨⟨by omega, Nat.pow_lt_pow_succ one_lt_two, Or.inr le_rfl⟩, ?_⟩
    exact (Format.pattern_carry ht).symm

/-- The machine's rounding gives the nearest pattern. -/
theorem toNat_pack_roundWithAccuracy (hS : 2 ≤ S.exponentBits) (negative : Bool) {m : ℕ} (hm : 0 < m)
    {e : ℤ} (he : e ≤ S.targetExponent (totalExponent m e)) :
    (pack S (roundWithAccuracy S (signOf negative) m e .exact)).toNat =
      (Format.ofMachine S).signed negative ((Format.ofMachine S).rounded (m * 2 ^ e)) := by
  have hplaces := places_targetExponent (S := S) hm e
  have hfirst : shiftToTargetExponent S m e .exact =
      (ExtendedMantissa.ofMantissaAndAccuracy m .exact >>> (S.targetExponent (totalExponent m e) - e).toNat,
        S.targetExponent (totalExponent m e)) := by
    rw [shiftToTargetExponent, shiftToExponent]
    congr 1
    omega
  rw [roundWithAccuracy, hfirst]
  generalize S.targetExponent (totalExponent m e) = t at he hplaces
  have hkeeps : Keeps (ExtendedMantissa.ofMantissaAndAccuracy m .exact >>> (t - e).toNat)
      (m * 2 ^ e / 2 ^ t) := by
    have hexact : Keeps (ExtendedMantissa.ofMantissaAndAccuracy m .exact) m := rfl
    have hscale : (2 : ℚ) ^ (t - e).toNat = 2 ^ t / 2 ^ e := by
      rw [← zpow_natCast, Int.toNat_of_nonneg (by omega), zpow_sub₀ two_ne_zero]
    have := hexact.shiftRight (t - e).toNat
    rwa [hscale, div_div_eq_mul_div] at this
  have hround : (Format.ofMachine S).Rounding (m * 2 ^ e) t _ := ⟨hplaces, hkeeps.roundsTo⟩
  obtain ⟨hcanon, hpattern⟩ :=
    shiftToTargetExponent_carry hround.least hround.bounds.1 hround.bounds.2
  rw [hround.rounded (by positivity), ← hpattern]
  dsimp only
  split_ifs with hzero
  · have hleast := hcanon.hidden.resolve_right (by rw [hzero]; simp)
    rw [pack, toNat_packedZero, hleast, hzero, Format.pattern]
    simp
  · exact toNat_pack_finite hS negative _ hcanon

theorem decreaseExponent_mul (m : ℕ) (e t : ℤ) :
    ((decreaseExponent m e t).1 * 2 ^ (decreaseExponent m e t).2 : ℚ) = m * 2 ^ e := by
  simp only [decreaseExponent, Nat.shiftLeft_eq]
  push_cast
  rw [← zpow_natCast, mul_assoc, ← zpow_add₀ two_ne_zero]
  congr 2
  omega

theorem toNat_pack_round (hS : 2 ≤ S.exponentBits) (negative : Bool) {m : ℕ} (hm : 0 < m) (e : ℤ) :
    (pack S (UnpackedFloat.round S (signOf negative) m e)).toNat =
      (Format.ofMachine S).signed negative ((Format.ofMachine S).rounded (m * 2 ^ e)) := by
  have hplaces := places_targetExponent (S := S) hm e
  rw [UnpackedFloat.round]
  generalize S.targetExponent (totalExponent m e) = t at hplaces
  have hpos : 0 < (decreaseExponent m e t).1 := by
    rw [decreaseExponent, Nat.shiftLeft_eq]
    positivity
  have hexact := decreaseExponent_mul m e t
  have ht : S.targetExponent (totalExponent (decreaseExponent m e t).1 (decreaseExponent m e t).2) = t := by
    have := places_targetExponent (S := S) hpos (decreaseExponent m e t).2
    rw [hexact] at this
    exact this.unique hplaces
  have hle : (decreaseExponent m e t).2 ≤ t := by
    simp only [decreaseExponent]
    omega
  dsimp only
  rw [toNat_pack_roundWithAccuracy hS negative hpos (hle.trans ht.ge), hexact]

theorem toNat_pack_normalize (hS : 2 ≤ S.exponentBits) (n : ℕ) (e : ℤ) :
    (pack S (UnpackedFloat.normalize S n e .positive)).toNat = (Format.ofMachine S).rounded (n * 2 ^ e) := by
  rcases Nat.eq_zero_or_pos n with rfl | hn
  · simp only [Nat.cast_zero, zero_mul, Format.rounded_zero]
    exact toNat_packedZero false
  · have hgt : compare (n : ℤ) 0 = .gt := Int.compare_eq_gt.mpr (by omega)
    rw [UnpackedFloat.normalize, hgt]
    exact toNat_pack_round hS false hn e

/-- What is not a NaN is put together again from what it was taken apart into. -/
theorem toNat_pack_unpack (hS : 2 ≤ S.exponentBits) (negative : Bool) {b : BitVec S.numBits} {p : ℕ}
    (hb : b.toNat = (Format.ofMachine S).signed negative p) (hp : p ≤ (Format.ofMachine S).infinity) :
    (pack S (unpack S b)).toNat = b.toNat := by
  rw [unpack_eq, hb]
  rcases hp.lt_or_eq with hlt | rfl
  · have hcanon := (Format.ofMachine S).canonical_decode p
    have hself := (Format.ofMachine S).pattern_decode p
    rw [Format.value_finite negative hlt, Value.unpacked]
    split_ifs with hzero
    · have hleast := hcanon.hidden.resolve_right (by rw [hzero]; simp)
      rw [hleast, hzero, Format.pattern, sub_self] at hself
      rw [pack, toNat_packedZero, ← hself]
      simp
    · rw [toNat_pack_finite hS negative _ hcanon, hself, min_eq_right hp]
  · rw [Format.value_infinity]
    exact toNat_packedInfinity negative

/-! ### Arithmetic on numbers that are not negative -/

theorem unpack_of_lt {b : BitVec S.numBits} (hb : b.toNat < (Format.ofMachine S).infinity) :
    unpack S b = (Value.finite false ((Format.ofMachine S).decode b.toNat).1
      ((Format.ofMachine S).decode b.toNat).2).unpacked := by
  rw [unpack_eq]
  exact congrArg _ (Format.value_finite false hb)

/-- A number that is not negative, taken apart: zero, or a significand at an exponent. -/
theorem unpack_cases {b : BitVec S.numBits} (hb : b.toNat < (Format.ofMachine S).infinity) :
    (unpack S b = .zero .positive ∧ (Format.ofMachine S).rat b.toNat = 0) ∨
      ∃ m e, ∃ hm : 0 < m, unpack S b = .finite .positive m e hm ∧ (Format.ofMachine S).Canonical e m ∧
        (Format.ofMachine S).rat b.toNat = m * 2 ^ e := by
  rw [unpack_of_lt hb, Value.unpacked]
  split_ifs with hzero
  · exact Or.inl ⟨rfl, by rw [Format.rat, hzero, Nat.cast_zero, zero_mul]⟩
  · exact Or.inr ⟨_, _, Nat.pos_of_ne_zero hzero, rfl, (Format.ofMachine S).canonical_decode _, rfl⟩

theorem unpack_ne_notANumber {b : BitVec S.numBits} (hb : b.toNat < (Format.ofMachine S).infinity) :
    unpack S b ≠ .notANumber := by
  rcases unpack_cases hb with ⟨h, -⟩ | ⟨m, e, hm, h, -⟩ <;> rw [h] <;> simp

/-- A machine's sum is the number nearest to the exact sum. -/
theorem toNat_add (hS : 2 ≤ S.exponentBits) {a b : BitVec S.numBits}
    (ha : a.toNat < (Format.ofMachine S).infinity) (hb : b.toNat < (Format.ofMachine S).infinity) :
    (pack S (add S (unpack S a) (unpack S b))).toNat =
      (Format.ofMachine S).rounded ((Format.ofMachine S).rat a.toNat + (Format.ofMachine S).rat b.toNat) := by
  have haself := toNat_pack_unpack hS false rfl ha.le
  have hbself := toNat_pack_unpack hS false rfl hb.le
  rcases unpack_cases ha with ⟨hua, hra⟩ | ⟨m₁, e₁, hm₁, hua, -, hra⟩ <;>
    rcases unpack_cases hb with ⟨hub, hrb⟩ | ⟨m₂, e₂, hm₂, hub, -, hrb⟩
  · rw [hua, hub, hra, hrb, add_zero, Format.rounded_zero]
    exact toNat_packedZero false
  · rw [hub] at hbself
    rw [hua, hub, hra, zero_add, Format.rounded_rat hb]
    exact hbself
  · rw [hua] at haself
    rw [hua, hub, hrb, add_zero, Format.rounded_rat ha]
    exact haself
  · have hexp₁ : (decreaseExponent m₁ e₁ (min e₁ e₂)).2 = min e₁ e₂ := by
      simp only [decreaseExponent]
      omega
    have hexp₂ : (decreaseExponent m₂ e₂ (min e₁ e₂)).2 = min e₁ e₂ := by
      simp only [decreaseExponent]
      omega
    have hval₁ := decreaseExponent_mul m₁ e₁ (min e₁ e₂)
    have hval₂ := decreaseExponent_mul m₂ e₂ (min e₁ e₂)
    rw [hexp₁] at hval₁
    rw [hexp₂] at hval₂
    have hsum := toNat_pack_normalize hS ((decreaseExponent m₁ e₁ (min e₁ e₂)).1 +
      (decreaseExponent m₂ e₂ (min e₁ e₂)).1) (min e₁ e₂)
    rw [Nat.cast_add, Nat.cast_add, add_mul, hval₁, hval₂] at hsum
    rw [hua, hub, hra, hrb, ← hsum]
    rfl

/-- A machine's difference is the number nearest to the exact difference. -/
theorem toNat_sub (hS : 2 ≤ S.exponentBits) {a b : BitVec S.numBits}
    (ha : a.toNat < (Format.ofMachine S).infinity) (hle : b.toNat ≤ a.toNat) :
    (pack S (sub S (unpack S a) (unpack S b))).toNat =
      (Format.ofMachine S).rounded ((Format.ofMachine S).rat a.toNat - (Format.ofMachine S).rat b.toNat) := by
  have hb := hle.trans_lt ha
  have hrat := Format.rat_le_rat ha hle
  have haself := toNat_pack_unpack hS false rfl ha.le
  rcases unpack_cases ha with ⟨hua, hra⟩ | ⟨m₁, e₁, hm₁, hua, -, hra⟩ <;>
    rcases unpack_cases hb with ⟨hub, hrb⟩ | ⟨m₂, e₂, hm₂, hub, -, hrb⟩
  · rw [hua, hub, hra, hrb, sub_zero, Format.rounded_zero]
    exact toNat_packedZero false
  · have : (0 : ℚ) < m₂ * 2 ^ e₂ := by positivity
    linarith
  · rw [hua] at haself
    rw [hua, hub, hrb, sub_zero, Format.rounded_rat ha]
    exact haself
  · have hexp₁ : (decreaseExponent m₁ e₁ (min e₁ e₂)).2 = min e₁ e₂ := by
      simp only [decreaseExponent]
      omega
    have hexp₂ : (decreaseExponent m₂ e₂ (min e₁ e₂)).2 = min e₁ e₂ := by
      simp only [decreaseExponent]
      omega
    have hval₁ := decreaseExponent_mul m₁ e₁ (min e₁ e₂)
    have hval₂ := decreaseExponent_mul m₂ e₂ (min e₁ e₂)
    rw [hexp₁] at hval₁
    rw [hexp₂] at hval₂
    have hnat : (decreaseExponent m₂ e₂ (min e₁ e₂)).1 ≤ (decreaseExponent m₁ e₁ (min e₁ e₂)).1 := by
      rw [hra, hrb, ← hval₁, ← hval₂] at hrat
      exact_mod_cast le_of_mul_le_mul_right hrat (by positivity)
    have hdiff := toNat_pack_normalize hS ((decreaseExponent m₁ e₁ (min e₁ e₂)).1 -
      (decreaseExponent m₂ e₂ (min e₁ e₂)).1) (min e₁ e₂)
    rw [Nat.cast_sub hnat, Nat.cast_sub hnat, sub_mul, hval₁, hval₂] at hdiff
    rw [hua, hub, hra, hrb, ← hdiff]
    rfl

/-- A machine's product is the number nearest to the exact product. -/
theorem toNat_mul (hS : 2 ≤ S.exponentBits) {a b : BitVec S.numBits}
    (ha : a.toNat < (Format.ofMachine S).infinity) (hb : b.toNat < (Format.ofMachine S).infinity) :
    (pack S (mul S (unpack S a) (unpack S b))).toNat =
      (Format.ofMachine S).rounded ((Format.ofMachine S).rat a.toNat * (Format.ofMachine S).rat b.toNat) := by
  rcases unpack_cases ha with ⟨hua, hra⟩ | ⟨m₁, e₁, hm₁, hua, hc₁, hra⟩ <;>
    rcases unpack_cases hb with ⟨hub, hrb⟩ | ⟨m₂, e₂, hm₂, hub, hc₂, hrb⟩
  · rw [hua, hub, hra, zero_mul, Format.rounded_zero]
    exact toNat_packedZero false
  · rw [hua, hub, hra, zero_mul, Format.rounded_zero]
    exact toNat_packedZero false
  · rw [hua, hub, hrb, mul_zero, Format.rounded_zero]
    exact toNat_packedZero false
  · have hm : 0 < m₁ * m₂ := Nat.mul_pos hm₁ hm₂
    have hplaces := places_targetExponent (S := S) hm (e₁ + e₂)
    have hle : e₁ + e₂ ≤ S.targetExponent (totalExponent (m₁ * m₂) (e₁ + e₂)) := by
      generalize S.targetExponent (totalExponent (m₁ * m₂) (e₁ + e₂)) = t at hplaces
      by_contra hlt
      have hpow : (m₁ * m₂ : ℕ) * (2 : ℚ) ^ (e₁ + e₂) <
          2 ^ (Format.ofMachine S).fractionBits * 2 ^ (e₁ + e₂) := by
        rw [← zpow_natCast, ← zpow_add₀ two_ne_zero]
        refine hplaces.below.trans_le (zpow_le_zpow_right₀ (by norm_num) ?_)
        omega
      have hshort : m₁ * m₂ < 2 ^ (Format.ofMachine S).fractionBits := by
        exact_mod_cast lt_of_mul_lt_mul_right hpow (by positivity)
      -- Short factors have the least exponent, and it is not positive.
      have hshort₁ := (Nat.le_mul_of_pos_right m₁ hm₂).trans_lt hshort
      have hshort₂ := (Nat.le_mul_of_pos_left m₂ hm₁).trans_lt hshort
      have hleast₁ := hc₁.hidden.resolve_right hshort₁.not_ge
      have hleast₂ := hc₂.hidden.resolve_right hshort₂.not_ge
      have hleast := hplaces.least
      have := S.hm
      rw [minExponent_ofMachine] at hleast₁ hleast₂ hleast
      omega
    have hprod := toNat_pack_roundWithAccuracy hS false hm hle
    rw [hua, hub, hra, hrb, mul_mul_mul_comm, ← zpow_add₀ two_ne_zero, ← Nat.cast_mul]
    exact hprod

/-! ### Comparisons -/

theorem toNat_lt_signBit (b : BitVec S.numBits) : b.toNat < 2 * (Format.ofMachine S).signBit := by
  refine b.isLt.trans_eq ?_
  rw [Format.signBit, Nat.shiftLeft_eq, one_mul, ← pow_succ']
  congr 1
  simp only [Float.Model.Format.numBits, Format.ofMachine]
  omega

theorem infinity_pos : 0 < (Format.ofMachine S).infinity := by
  have : 1 < 2 ^ S.exponentBits := Nat.one_lt_two_pow S.he.ne'
  rw [Format.infinity, Nat.shiftLeft_eq, Nat.shiftLeft_eq, one_mul]
  exact Nat.mul_pos (Nat.sub_pos_of_lt this) (by positivity)

/-- Finite and not below zero is a number without a sign, or zero with one. -/
theorem isFinite_and_not_lt_zero_iff (b : BitVec S.numBits) :
    ((unpack S b).isFinite = true ∧ (unpack S b).lt (.zero .positive) = false) ↔
      b.toNat < (Format.ofMachine S).infinity ∨ b.toNat = (Format.ofMachine S).signBit := by
  obtain ⟨negative, p, hp, hb⟩ := (Format.ofMachine S).exists_signed (toNat_lt_signBit b)
  have hbound := (Format.ofMachine S).infinity_lt_signBit
  have hpos := infinity_pos (S := S)
  rw [unpack_eq, hb]
  rcases lt_trichotomy p (Format.ofMachine S).infinity with hlt | rfl | hgt
  · rw [Format.value_finite negative hlt, Value.unpacked]
    cases negative <;> split_ifs with h <;> rw [Format.decode_fst_eq_zero_iff] at h
    · simp [UnpackedFloat.isFinite, UnpackedFloat.lt, UnpackedFloat.compare, Format.signed, hlt]
    · simp [signOf, UnpackedFloat.isFinite, UnpackedFloat.lt, UnpackedFloat.compare, Format.signed, hlt]
    · simp [UnpackedFloat.isFinite, UnpackedFloat.lt, UnpackedFloat.compare, Format.signed, h]
    · simp [signOf, UnpackedFloat.isFinite, UnpackedFloat.lt, UnpackedFloat.compare, Format.signed, h]
      omega
  · rw [Format.value_infinity]
    cases negative <;> simp [Value.unpacked, UnpackedFloat.isFinite, Format.signed] <;> omega
  · rw [Format.value_nan negative hgt hp]
    cases negative <;> simp [Value.unpacked, UnpackedFloat.isFinite, Format.signed] <;> omega

/-- What is above zero has no sign. -/
theorem zero_lt_iff (b : BitVec S.numBits) :
    (UnpackedFloat.zero .positive).lt (unpack S b) = true ↔
      0 < b.toNat ∧ b.toNat ≤ (Format.ofMachine S).infinity := by
  obtain ⟨negative, p, hp, hb⟩ := (Format.ofMachine S).exists_signed (toNat_lt_signBit b)
  have hbound := (Format.ofMachine S).infinity_lt_signBit
  have hpos := infinity_pos (S := S)
  rw [unpack_eq, hb]
  rcases lt_trichotomy p (Format.ofMachine S).infinity with hlt | rfl | hgt
  · rw [Format.value_finite negative hlt, Value.unpacked]
    cases negative <;> split_ifs with h <;> rw [Format.decode_fst_eq_zero_iff] at h
    · simp [UnpackedFloat.lt, UnpackedFloat.compare, Format.signed, h]
    · simp [signOf, UnpackedFloat.lt, UnpackedFloat.compare, Format.signed]
      omega
    · simp [UnpackedFloat.lt, UnpackedFloat.compare, Format.signed, h]
      omega
    · simp [signOf, UnpackedFloat.lt, UnpackedFloat.compare, Format.signed]
      omega
  · rw [Format.value_infinity]
    cases negative <;>
      simp [Value.unpacked, signOf, UnpackedFloat.lt, UnpackedFloat.compare, Format.signed] <;> omega
  · rw [Format.value_nan negative hgt hp]
    cases negative <;>
      simp [Value.unpacked, UnpackedFloat.lt, UnpackedFloat.compare, Format.signed] <;> omega

/-- Numbers that are not negative have the order of their patterns. -/
theorem le_iff_toNat_le {a b : BitVec S.numBits} (ha : a.toNat < (Format.ofMachine S).infinity)
    (hb : b.toNat < (Format.ofMachine S).infinity) :
    (unpack S a).le (unpack S b) = true ↔ a.toNat ≤ b.toNat := by
  have hrat : (Format.ofMachine S).rat a.toNat ≤ (Format.ofMachine S).rat b.toNat ↔ a.toNat ≤ b.toNat := by
    rw [← not_lt, Format.rat_lt_iff hb ha, not_lt]
  rw [← hrat]
  rcases unpack_cases ha with ⟨hua, hra⟩ | ⟨m₁, e₁, hm₁, hua, hc₁, hra⟩ <;>
    rcases unpack_cases hb with ⟨hub, hrb⟩ | ⟨m₂, e₂, hm₂, hub, hc₂, hrb⟩ <;>
    rw [hua, hub, hra, hrb]
  · simp [UnpackedFloat.le, UnpackedFloat.compare]
  · have hpos : (0 : ℚ) < m₂ * 2 ^ e₂ := by positivity
    simp [UnpackedFloat.le, UnpackedFloat.compare, hpos.le]
  · have hpos : (0 : ℚ) < m₁ * 2 ^ e₁ := by positivity
    simp [UnpackedFloat.le, UnpackedFloat.compare, hpos]
  · simp only [UnpackedFloat.le, UnpackedFloat.compare, Option.any_some]
    rcases lt_trichotomy e₁ e₂ with hlt | rfl | hgt
    · have hle := (hc₁.lt_of_exponent_lt hc₂ hlt).le
      simp [Int.compare_eq_lt.mpr hlt, hle]
    · have hpow : (0 : ℚ) < 2 ^ e₁ := by positivity
      simp [Nat.isLE_compare, mul_le_mul_iff_left₀ hpow]
    · have hlt := hc₂.lt_of_exponent_lt hc₁ hgt
      simp [Int.compare_eq_gt.mpr hgt, hlt]

theorem compare_swap (a b : UnpackedFloat) : b.compare a = (a.compare b).map Ordering.swap := by
  have hthen (e₁ e₂ : ℤ) (m₁ m₂ : ℕ) : (compare e₂ e₁).then (compare m₂ m₁) =
      ((compare e₁ e₂).then (compare m₁ m₂)).swap := by
    rw [Ordering.swap_then, ← Std.OrientedOrd.eq_swap, ← Std.OrientedOrd.eq_swap]
  cases a with
  | finite sign m e hm =>
    cases b with
    | finite sign' m' e' hm' =>
      cases sign <;> cases sign'
      case negative.negative => exact congrArg (fun o => some o.swap) (hthen e e' m m')
      case positive.positive => exact congrArg some (hthen e e' m m')
      all_goals rfl
    | infinity sign' => cases sign <;> cases sign' <;> rfl
    | zero | notANumber => cases sign <;> rfl
  | infinity sign =>
    cases b with
    | infinity sign' => cases sign <;> cases sign' <;> rfl
    | finite sign' => cases sign <;> cases sign' <;> rfl
    | zero | notANumber => cases sign <;> rfl
  | zero | notANumber =>
    cases b with
    | infinity sign' | finite sign' => cases sign' <;> rfl
    | zero | notANumber => rfl

theorem compare_eq_none_iff (a b : UnpackedFloat) :
    a.compare b = none ↔ a = .notANumber ∨ b = .notANumber := by
  rcases a with (_ | _) | _ | _ | ⟨_ | _, m₁, e₁, h₁⟩ <;>
    rcases b with (_ | _) | _ | _ | ⟨_ | _, m₂, e₂, h₂⟩ <;>
    simp [UnpackedFloat.compare]

/-- Of two floats that are not NaN, either the first is less or the second is not greater. -/
theorem lt_eq_not_le {a b : UnpackedFloat} (ha : a ≠ .notANumber) (hb : b ≠ .notANumber) :
    a.lt b = !b.le a := by
  obtain ⟨o, ho⟩ := Option.ne_none_iff_exists'.mp
    (mt (compare_eq_none_iff a b).mp (not_or.mpr ⟨ha, hb⟩))
  rw [UnpackedFloat.lt, UnpackedFloat.le, compare_swap a b, ho]
  cases o <;> rfl

theorem lt_iff_toNat_lt {a b : BitVec S.numBits} (ha : a.toNat < (Format.ofMachine S).infinity)
    (hb : b.toNat < (Format.ofMachine S).infinity) :
    (unpack S a).lt (unpack S b) = true ↔ a.toNat < b.toNat := by
  rw [lt_eq_not_le (unpack_ne_notANumber ha) (unpack_ne_notANumber hb), Bool.not_eq_true',
    ← Bool.not_eq_true, le_iff_toNat_le hb ha, not_le]

end TileWorld.Number
