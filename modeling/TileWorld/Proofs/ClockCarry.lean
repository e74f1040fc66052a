import TileWorld.Proofs.FloatValues
import TileWorld.World.Basic

/-! What a clock carries over from step to step. At a time scale that is a number it stays between
zero and one; at an infinite scale it becomes no number at all with the first step, and the clock
stands still from then on. -/
namespace TileWorld

open Number
open Float.Model (UnpackedFloat)

/-- The pattern of a single one. -/
def Number.onePattern : ℕ :=
  0x3f800000

theorem rat_onePattern : Format.single.rat onePattern = 1 := by
  have hleast : Format.single.minExponent ≤ -23 := by decide
  have hrat := Format.rat_pattern (q := 2 ^ 23) hleast (by decide) (Or.inr le_rfl)
  rw [show onePattern = Format.single.pattern (-23) (2 ^ 23) by decide, hrat]
  norm_num

theorem onePattern_lt_infinity : onePattern < Format.single.infinity := by
  decide

theorem rat_single_le {p : ℕ} (hp : p < Format.single.infinity) : Format.single.rat p ≤ 2 ^ 128 := by
  have hleast : Format.single.minExponent ≤ 104 := by decide
  have hrat := Format.rat_pattern (q := 2 ^ 24 - 1) hleast (by decide) (Or.inr (by decide))
  have hlast : Format.single.infinity = Format.single.pattern 104 (2 ^ 24 - 1) + 1 := by decide
  calc Format.single.rat p ≤ Format.single.rat (Format.single.pattern 104 (2 ^ 24 - 1)) :=
        Format.rat_le_rat (by omega) (by omega)
    _ ≤ 2 ^ 128 := by rw [hrat]; norm_num

theorem rat_widen_le {x : Float32} (hx : x.toBits.toNat < Format.single.infinity) :
    (widen x).toBits.toNat < Format.double.infinity ∧
      Format.double.rat (widen x).toBits.toNat ≤ 2 ^ 128 := by
  rw [toNat_widen hx]
  exact rounded_le_double (Format.rat_nonneg _ _) (by norm_num) (rat_single_le hx)

theorem toNat_positivePart_lt {x : Float32} (hx : x.toBits.toNat ≠ Format.single.infinity) :
    (Clock.positivePart x).toBits.toNat < Format.single.infinity := by
  rw [Clock.positivePart]
  split
  next h => exact ((zero_lt_single_iff x).mp h).2.lt_of_ne hx
  next => decide

theorem toNat_positivePart {x : Float32} (hx : x.isFinite = true) :
    (Clock.positivePart x).toBits.toNat < Format.single.infinity := by
  apply toNat_positivePart_lt
  intro hinf
  have hvalue : singleValue x = .infinite false := by
    rw [singleValue, hinf]
    exact Format.value_infinity _ false
  have hunpack : x.toModel.unpack.isFinite = true := hx
  rw [unpack_single, hvalue] at hunpack
  cases hunpack

/-- What a number has above its whole part is rounded once, and is one at most. -/
theorem rat_sub_floor_le {x : Float} (hx : x.toBits.toNat < Format.double.infinity) :
    (x - floor x).toBits.toNat = Format.double.rounded
        (Format.double.rat x.toBits.toNat - (⌊Format.double.rat x.toBits.toNat⌋₊ : ℕ)) ∧
      (x - floor x).toBits.toNat < Format.double.infinity ∧
      Format.double.rat (x - floor x).toBits.toNat ≤ 1 := by
  have hfloor := Nat.floor_le (Format.double.rat_nonneg x.toBits.toNat)
  have hlt := Nat.lt_floor_add_one (Format.double.rat x.toBits.toNat)
  have hle : (floor x).toBits.toNat ≤ x.toBits.toNat := by
    rw [toNat_floor hx]
    exact Format.rounded_le_of_le_rat (Nat.cast_nonneg _) hx hfloor
  have hsub := toNat_sub_double hx hle
  rw [rat_floor hx] at hsub
  rw [hsub, ← pow_zero (2 : ℚ)]
  exact ⟨rfl, rounded_le_double (by linarith) (by norm_num) (by rw [pow_zero]; linarith)⟩

theorem toNat_narrow_sub_floor {x : Float} (hx : x.toBits.toNat < Format.double.infinity) :
    (narrow (x - floor x)).toBits.toNat ≤ onePattern := by
  obtain ⟨-, hfinite, hone⟩ := rat_sub_floor_le hx
  rw [toNat_narrow hfinite]
  refine Format.rounded_le_of_le_rat (Format.rat_nonneg _ _) onePattern_lt_infinity ?_
  rwa [rat_onePattern]

/-! ### Beyond numbers -/

theorem unpacked_eq_notANumber_iff (v : Value) : v.unpacked = .notANumber ↔ v = .nan := by
  cases v <;> simp [Value.unpacked]
  split <;> simp

theorem isNaN_single_iff (x : Float32) : x.isNaN = true ↔ singleValue x = .nan := by
  rw [isNaN_iff, unpack_single, unpacked_eq_notANumber_iff]

theorem doubleValue_eq_nan {x : Float} (h : x.toModel.unpack = .notANumber) : doubleValue x = .nan :=
  (unpacked_eq_notANumber_iff _).mp (unpack_double x ▸ h)

theorem unpack_pack_notANumber :
    UnpackedFloat.unpack .binary64 (UnpackedFloat.pack .binary64 .notANumber) = .notANumber :=
  rfl

theorem unpack_pack_infinity :
    UnpackedFloat.unpack .binary64 (UnpackedFloat.pack .binary64 (.infinity .positive)) =
      .infinity .positive :=
  rfl

theorem add_notANumber (S : Float.Model.Format) (a : UnpackedFloat) :
    UnpackedFloat.add S a .notANumber = .notANumber := by
  cases a <;> rfl

theorem unpack_add_notANumber (x : Float) {y : Float} (hy : y.toModel.unpack = .notANumber) :
    (x + y).toModel.unpack = .notANumber := by
  rw [unpack_add, hy, add_notANumber, unpack_pack_notANumber]

theorem floor_eq_self {x : Float}
    (hx : x.toModel.unpack = .notANumber ∨ x.toModel.unpack = .infinity .positive) : floor x = x := by
  rw [floor]
  split
  next negative m e hvalue =>
    rw [unpack_double, hvalue, Value.unpacked] at hx
    split at hx <;> simp at hx
  next => rfl

/-- What no number is left of is carried as no number. -/
theorem isNaN_narrow_sub_floor {x : Float}
    (hx : x.toModel.unpack = .notANumber ∨ x.toModel.unpack = .infinity .positive) :
    (narrow (x - floor x)).isNaN = true := by
  have hsub : (x - x).toModel.unpack = .notANumber := by
    rw [unpack_sub]
    rcases hx with hx | hx <;> rw [hx] <;> rfl
  rw [floor_eq_self hx, narrow, doubleValue_eq_nan hsub]
  rfl

/-- A step of a clock, in either unit. -/
inductive ClockStep where
  | ms (n : UInt32)
  | seconds (x : Float32)

/-- The milliseconds of a step before scaling; negative seconds, and what is no number, are none. -/
def ClockStep.rawMs : ClockStep → Float
  | .ms n => n.toFloat
  | .seconds x => widen (if x.isFinite then Clock.positivePart x else 0.0) * UInt32.toFloat 1000

theorem ClockStep.rawMs_le (t : ClockStep) :
    t.rawMs.toBits.toNat < Format.double.infinity ∧ Format.double.rat t.rawMs.toBits.toNat ≤ 2 ^ 138 := by
  cases t with
  | ms n =>
    have hms : ((n.toNat : ℕ) : ℚ) ≤ 2 ^ 138 := by
      have := n.toNat_lt
      calc ((n.toNat : ℕ) : ℚ) ≤ 2 ^ 32 := by exact_mod_cast this.le
        _ ≤ 2 ^ 138 := by gcongr <;> norm_num
    rw [rawMs, toNat_toFloat]
    exact rounded_le_double (Nat.cast_nonneg _) (by norm_num) hms
  | seconds x =>
    have hseconds : (if x.isFinite then Clock.positivePart x else (0.0 : Float32)).toBits.toNat <
        Format.single.infinity := by
      split
      next h => exact toNat_positivePart h
      next => decide
    obtain ⟨hwiden, hwiden'⟩ := rat_widen_le hseconds
    obtain ⟨hunit, hunit'⟩ := rounded_le_double (y := 1000) (k := 10) (by norm_num) (by norm_num)
      (by norm_num)
    have hfloat : (UInt32.toFloat 1000).toBits.toNat = Format.double.rounded 1000 := by
      rw [toNat_toFloat, show (1000 : UInt32).toNat = 1000 from rfl, Nat.cast_ofNat]
    rw [← hfloat] at hunit hunit'
    rw [rawMs, toNat_mul_double hwiden hunit]
    refine rounded_le_double (mul_nonneg (Format.rat_nonneg _ _) (Format.rat_nonneg _ _)) (by norm_num) ?_
    calc _ ≤ (2 ^ 128 * 2 ^ 10 : ℚ) := mul_le_mul hwiden' hunit' (Format.rat_nonneg _ _) (by positivity)
      _ = 2 ^ 138 := by rw [← pow_add]

namespace Clock

/-- The clock after a step. -/
def step (c : Clock) : ClockStep → Clock
  | .ms n => c.stepMs n
  | .seconds x => c.stepSeconds x

theorem step_eq_advance (c : Clock) (t : ClockStep) : c.step t = c.advance t.rawMs := by
  cases t <;> rfl

/-- The scaled milliseconds of a step, and what was carried to it. -/
def scaledMs (c : Clock) (raw : Float) : Float :=
  raw * widen (positivePart c.scale) + widen c.carryMs

theorem rat_mul_scale_le {c : Clock}
    (hscale : (positivePart c.scale).toBits.toNat < Format.single.infinity) {raw : Float}
    (hraw : raw.toBits.toNat < Format.double.infinity)
    (hbound : Format.double.rat raw.toBits.toNat ≤ 2 ^ 138) :
    (raw * widen (positivePart c.scale)).toBits.toNat < Format.double.infinity ∧
      Format.double.rat (raw * widen (positivePart c.scale)).toBits.toNat ≤ 2 ^ 266 := by
  obtain ⟨hscale, hscale'⟩ := rat_widen_le hscale
  rw [toNat_mul_double hraw hscale]
  refine rounded_le_double (mul_nonneg (Format.rat_nonneg _ _) (Format.rat_nonneg _ _)) (by norm_num) ?_
  calc _ ≤ (2 ^ 138 * 2 ^ 128 : ℚ) := mul_le_mul hbound hscale' (Format.rat_nonneg _ _) (by positivity)
    _ = 2 ^ 266 := by rw [← pow_add]

theorem toNat_scaledMs_lt {c : Clock}
    (hscale : (positivePart c.scale).toBits.toNat < Format.single.infinity)
    (hcarry : c.carryMs.toBits.toNat < Format.single.infinity) {raw : Float}
    (hraw : raw.toBits.toNat < Format.double.infinity)
    (hbound : Format.double.rat raw.toBits.toNat ≤ 2 ^ 138) :
    (c.scaledMs raw).toBits.toNat < Format.double.infinity := by
  obtain ⟨hproduct, hproduct'⟩ := rat_mul_scale_le hscale hraw hbound
  obtain ⟨hcarry, hcarry'⟩ := rat_widen_le hcarry
  rw [scaledMs, toNat_add_double hproduct hcarry]
  refine (rounded_le_double (add_nonneg (Format.rat_nonneg _ _) (Format.rat_nonneg _ _))
    (k := 267) (by norm_num) ?_).1
  calc _ ≤ (2 ^ 266 + 2 ^ 128 : ℚ) := add_le_add hproduct' hcarry'
    _ ≤ 2 ^ 266 + 2 ^ 266 := by gcongr <;> norm_num
    _ = 2 ^ 267 := by rw [← two_mul, ← pow_succ']

theorem advance_carryMs_le {c : Clock} (hscale : c.scale.isFinite = true)
    (hcarry : c.carryMs.toBits.toNat ≤ onePattern) {raw : Float}
    (hraw : raw.toBits.toNat < Format.double.infinity)
    (hbound : Format.double.rat raw.toBits.toNat ≤ 2 ^ 138) :
    (c.advance raw).carryMs.toBits.toNat ≤ onePattern :=
  toNat_narrow_sub_floor <| toNat_scaledMs_lt (toNat_positivePart hscale)
    (hcarry.trans_lt onePattern_lt_infinity) hraw hbound

theorem wholeMs_of_notANumber {x : Float} (hx : x.toModel.unpack = .notANumber) : wholeMs x = 0 := by
  have hle : ¬ UInt32.toFloat 0xFFFFFFFF ≤ x := by
    change ¬ (decide _ = true)
    rw [decide_eq_true_iff]
    change ¬ (UInt32.toFloat 0xFFFFFFFF).toModel.unpack.le x.toModel.unpack = true
    rw [hx]
    decide
  have hword : x.toUInt32 = x.toModel.unpack.toUInt32 := rfl
  rw [wholeMs, if_neg hle, hword, hx]
  rfl

/-- A clock that carries no number never counts another millisecond. -/
theorem advance_of_isNaN {c : Clock} (h : c.carryMs.isNaN = true) (raw : Float) :
    (c.advance raw).carryMs.isNaN = true ∧ (c.advance raw).elapsedMs = c.elapsedMs := by
  have hwiden : (widen c.carryMs).toModel.unpack = .notANumber := by
    rw [widen, (isNaN_single_iff _).mp h]
    rfl
  have hscaled := unpack_add_notANumber (raw * widen (positivePart c.scale)) hwiden
  refine ⟨isNaN_narrow_sub_floor (Or.inl hscaled), ?_⟩
  have helapsed : (c.advance raw).elapsedMs = c.elapsedMs +
      (wholeMs (floor (raw * widen (positivePart c.scale) + widen c.carryMs))).toUInt64 := rfl
  rw [helapsed, floor_eq_self (Or.inl hscaled), wholeMs_of_notANumber hscaled]
  simp

theorem unpack_mul_infinite {c : Clock} (hscale : c.scale.toBits.toNat = Format.single.infinity)
    {raw : Float} (hraw : raw.toBits.toNat < Format.double.infinity) :
    (raw * widen (positivePart c.scale)).toModel.unpack = .notANumber ∨
      (raw * widen (positivePart c.scale)).toModel.unpack = .infinity .positive := by
  have hpositive : positivePart c.scale = c.scale := by
    rw [positivePart, if_pos]
    rw [zero_lt_single_iff, hscale]
    decide
  have hvalue : singleValue c.scale = .infinite false := by
    rw [singleValue, hscale]
    exact Format.value_infinity _ false
  have hwiden : (widen c.scale).toModel.unpack = .infinity .positive := by
    rw [widen, hvalue]
    rfl
  rw [hpositive, unpack_mul, hwiden]
  -- Nothing times infinity is no number.
  rcases unpack_double_cases hraw with h | ⟨m, e, hm, h⟩ <;> rw [h]
  · exact Or.inl unpack_pack_notANumber
  · exact Or.inr unpack_pack_infinity

/-- At an infinite scale the first step leaves no number to carry. -/
theorem advance_of_infinite {c : Clock} (hscale : c.scale.toBits.toNat = Format.single.infinity)
    (hcarry : c.carryMs.toBits.toNat < Format.single.infinity) {raw : Float}
    (hraw : raw.toBits.toNat < Format.double.infinity) :
    (c.advance raw).carryMs.isNaN = true := by
  have hscaled : (c.scaledMs raw).toModel.unpack = .notANumber ∨
      (c.scaledMs raw).toModel.unpack = .infinity .positive := by
    have hfinite := (rat_widen_le hcarry).1
    rw [scaledMs, unpack_add]
    rcases unpack_mul_infinite hscale hraw with hp | hp <;> rw [hp] <;>
      rcases unpack_double_cases hfinite with h | ⟨m, e, hm, h⟩ <;> rw [h]
    · exact Or.inl unpack_pack_notANumber
    · exact Or.inl unpack_pack_notANumber
    · exact Or.inr unpack_pack_infinity
    · exact Or.inr unpack_pack_infinity
  exact isNaN_narrow_sub_floor hscaled

/-! ### Runs -/

/-- The clock after steps, one after the other. -/
def run (c : Clock) (steps : List ClockStep) : Clock :=
  steps.foldl step c

theorem run_scale (c : Clock) (steps : List ClockStep) : (c.run steps).scale = c.scale := by
  induction steps generalizing c with
  | nil => rfl
  | cons t steps ih =>
    have hstep : (c.step t).scale = c.scale := by cases t <;> rfl
    exact (ih (c.step t)).trans hstep

/-- At a scale that is a number a clock always carries between zero and one. -/
theorem run_carryMs_le {c : Clock} (hscale : c.scale.isFinite = true)
    (hcarry : c.carryMs.toBits.toNat ≤ onePattern) (steps : List ClockStep) :
    (c.run steps).carryMs.toBits.toNat ≤ onePattern := by
  induction steps generalizing c with
  | nil => exact hcarry
  | cons t steps ih =>
    obtain ⟨hraw, hbound⟩ := t.rawMs_le
    have hstep : (c.step t).carryMs.toBits.toNat ≤ onePattern := by
      rw [step_eq_advance]
      exact advance_carryMs_le hscale hcarry hraw hbound
    have hscale' : (c.step t).scale.isFinite = true := by
      rw [show (c.step t).scale = c.scale from run_scale c [t]]
      exact hscale
    exact ih hscale' hstep

/-- A clock that carries no number stands still. -/
theorem run_of_isNaN {c : Clock} (h : c.carryMs.isNaN = true) (steps : List ClockStep) :
    (c.run steps).carryMs.isNaN = true ∧ (c.run steps).elapsedMs = c.elapsedMs := by
  induction steps generalizing c with
  | nil => exact ⟨h, rfl⟩
  | cons t steps ih =>
    obtain ⟨hcarry, helapsed⟩ := advance_of_isNaN h t.rawMs
    rw [← step_eq_advance] at hcarry helapsed
    obtain ⟨hrun, hrun'⟩ := ih hcarry
    exact ⟨hrun, hrun'.trans helapsed⟩

end Clock

end TileWorld
