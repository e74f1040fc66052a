import TileWorld.Proofs.NumeralText

/-! The fraction of a millisecond that a clock carries. It is worked out in double precision and kept
in single, and what lies nearer to one than to any other single is kept as one. A clock that carries
one counts it with the next step, at rest as well. -/
namespace TileWorld

open Number
open Float.Model (UnpackedFloat)

namespace Number

theorem Format.rat_zero (F : Format) : F.rat 0 = 0 := by
  simp [Format.rat, Format.decode]

/-- A single from zero up to one, but not one itself. -/
def IsFraction (x : Float32) : Prop :=
  IsNonneg x ∧ x < 1.0

theorem isFraction_iff (x : Float32) :
    IsFraction x ↔ x.toBits.toNat < onePattern ∨ x.toBits.toNat = Format.single.signBit := by
  have hone : (1.0 : Float32).toBits.toNat = onePattern := by decide
  have hlt (hx : x.toBits.toNat < Format.single.infinity) : x < 1.0 ↔ x.toBits.toNat < onePattern := by
    rw [single_lt_iff_toNat_lt hx (by decide), hone]
  rw [IsFraction, isNonneg_iff]
  constructor
  · rintro ⟨hfinite | hzero, hx⟩
    · exact Or.inl ((hlt hfinite).mp hx)
    · exact Or.inr hzero
  · rintro (hx | hzero)
    · have hfinite := hx.trans onePattern_lt_infinity
      exact ⟨Or.inl hfinite, (hlt hfinite).mpr hx⟩
    · refine ⟨Or.inr hzero, ?_⟩
      obtain rfl : x = .ofBits 0x80000000 := eq_of_toNat_toBits (hzero.trans (by decide))
      rw [single_lt_iff]
      decide

theorem eq_one_iff (x : Float32) : x = 1.0 ↔ x.toBits.toNat = onePattern := by
  constructor
  · rintro rfl
    decide
  · intro h
    exact eq_of_toNat_toBits (h.trans (by decide))

/-- Half way between one and the greatest single below it. -/
def carryLimit : Float :=
  .ofBits 0x3feffffff0000000

theorem rat_carryLimit :
    Format.double.rat carryLimit.toBits.toNat = Format.single.mid (onePattern - 1) := by
  have hlimit : Format.double.decode carryLimit.toBits.toNat = ((2 ^ 25 - 1) * 2 ^ 28, -53) := by decide
  have hbelow : Format.single.decode (onePattern - 1) = (2 ^ 24 - 1, -24) := by decide
  rw [Format.rat, hlimit, Format.mid, hbelow]
  norm_num

/-- A double is kept as a single below one up to the limit. The limit itself goes to one, since the
single below one is odd. -/
theorem toNat_narrow_lt_onePattern_iff {x : Float} (hx : x.toBits.toNat < Format.double.infinity) :
    (narrow x).toBits.toNat < onePattern ↔ x < carryLimit := by
  have hlimit : carryLimit.toBits.toNat < Format.double.infinity := by decide
  have hodd : (Format.single.decode (onePattern - 1)).1 % 2 = 1 := by decide
  have hbelow : onePattern - 1 < Format.single.infinity := by decide
  have hround := Format.rounded_le_iff (Format.rat_nonneg .double x.toBits.toNat) hbelow
  rw [hodd, ← rat_carryLimit, Format.rat_lt_iff hx hlimit] at hround
  rw [toNat_narrow hx, double_lt_iff_toNat_lt hx hlimit, Nat.lt_iff_le_pred (by decide)]
  simpa using hround

theorem double_eq_of_toNat_toBits {x y : Float} (h : x.toBits.toNat = y.toBits.toNat) : x = y := by
  obtain ⟨⟨bits, hbits⟩⟩ := x
  obtain ⟨⟨bits', hbits'⟩⟩ := y
  obtain rfl := UInt64.toNat_inj.mp h
  rfl

/-- Zero with a sign adds nothing, and leaves no sign behind. -/
theorem add_widen_negative_zero {x : Float} (hx : x.toModel.unpack ≠ .zero .negative) :
    x + widen (.ofBits 0x80000000) = x + widen 0.0 := by
  have hnegative : (widen (.ofBits 0x80000000)).toModel.unpack = .zero .negative := rfl
  have hpositive : (widen 0.0).toModel.unpack = .zero .positive := rfl
  have hsum : UnpackedFloat.add .binary64 x.toModel.unpack (widen (.ofBits 0x80000000)).toModel.unpack =
      UnpackedFloat.add .binary64 x.toModel.unpack (widen 0.0).toModel.unpack := by
    rw [hnegative, hpositive]
    cases h : x.toModel.unpack with
    | zero s =>
      cases s with
      | positive => rfl
      | negative => exact absurd h hx
    | notANumber | infinity | finite => rfl
  exact congrArg (fun u => Float.ofModel (.pack u)) hsum

end Number

/-- What may happen to a clock: a step, or a new scale that is a number and not below zero. -/
inductive ClockCall where
  | step (t : ClockStep)
  | rescale (scale : Float32) (hscale : IsNonneg scale)

namespace Clock

/-- The clock after a call. -/
def call (c : Clock) : ClockCall → Clock
  | .step t => c.step t
  | .rescale scale _ => { c with scale }

/-- The clock after calls, one after the other. -/
def after (c : Clock) (calls : List ClockCall) : Clock :=
  calls.foldl call c

/-- What a step leaves above the whole milliseconds it counts, before it is kept as a single. -/
def leftover (c : Clock) (t : ClockStep) : Float :=
  c.scaledMs t.rawMs - floor (c.scaledMs t.rawMs)

variable {c : Clock}

theorem step_eq (c : Clock) (t : ClockStep) : c.step t =
    { c with
      elapsedMs := c.elapsedMs + (wholeMs (floor (c.scaledMs t.rawMs))).toUInt64
      deltaMs := wholeMs (floor (c.scaledMs t.rawMs))
      carryMs := narrow (c.leftover t) } :=
  step_eq_advance c t

/-! ### Zero with a sign -/

/-- Zero with a sign is carried as zero is. -/
theorem scaledMs_of_negative_zero (hzero : c.carryMs.toBits.toNat = Format.single.signBit)
    (t : ClockStep) : c.scaledMs t.rawMs = scaledMs { c with carryMs := 0.0 } t.rawMs := by
  have hcarry : c.carryMs = .ofBits 0x80000000 := eq_of_toNat_toBits (hzero.trans (by decide))
  have hproduct : (t.rawMs * widen (positivePart c.scale)).toModel.unpack ≠ .zero .negative := by
    by_cases hscale : c.scale.toBits.toNat = Format.single.infinity
    · rcases unpack_mul_infinite hscale t.rawMs_le.1 with h | h <;> rw [h] <;> nofun
    · have hfinite := (rat_mul_scale_le (toNat_positivePart_lt hscale) t.rawMs_le.1 t.rawMs_le.2).1
      rcases unpack_double_cases hfinite with h | ⟨m, e, hm, h⟩ <;> rw [h] <;> nofun
  rw [scaledMs, hcarry, add_widen_negative_zero hproduct]
  rfl

theorem step_of_negative_zero (hzero : c.carryMs.toBits.toNat = Format.single.signBit)
    (t : ClockStep) : c.step t = step { c with carryMs := 0.0 } t := by
  rw [step_eq, step_eq, leftover, leftover, scaledMs_of_negative_zero hzero t]

/-! ### Steps -/

/-- A clock that carries a fraction, or else one, at a scale that is not infinite. -/
structure Carries (c : Clock) : Prop where
  scale : c.scale.toBits.toNat ≠ Format.single.infinity
  carry : IsFraction c.carryMs ∨ c.carryMs = 1.0

/-- Up to the sign of a zero a clock carries a pattern that is not above that of one. -/
theorem Carries.cases (h : c.Carries) :
    c.carryMs.toBits.toNat ≤ onePattern ∨ c.carryMs.toBits.toNat = Format.single.signBit := by
  rcases h.carry with hfraction | hone
  · exact ((isFraction_iff _).mp hfraction).imp_left Nat.le_of_lt
  · exact Or.inl ((eq_one_iff _).mp hone).le

theorem Carries.toNat_scaledMs_lt (h : c.Carries) (t : ClockStep) :
    (c.scaledMs t.rawMs).toBits.toNat < Format.double.infinity := by
  have hscale := toNat_positivePart_lt h.scale
  obtain ⟨hraw, hbound⟩ := t.rawMs_le
  rcases h.cases with hle | hzero
  · exact Clock.toNat_scaledMs_lt hscale (hle.trans_lt onePattern_lt_infinity) hraw hbound
  · have hunsigned : (0.0 : Float32).toBits.toNat < Format.single.infinity := by decide
    rw [scaledMs_of_negative_zero hzero]
    exact Clock.toNat_scaledMs_lt (c := { c with carryMs := 0.0 }) hscale hunsigned hraw hbound

theorem Carries.toNat_step_le (h : c.Carries) (t : ClockStep) :
    (c.step t).carryMs.toBits.toNat ≤ onePattern := by
  rw [step_eq]
  exact toNat_narrow_sub_floor (h.toNat_scaledMs_lt t)

/-- A step leaves a fraction up to the limit, and from there on it leaves one. -/
theorem Carries.isFraction_step_iff (h : c.Carries) (t : ClockStep) :
    IsFraction (c.step t).carryMs ↔ c.leftover t < carryLimit := by
  have hle := h.toNat_step_le t
  have hsign : onePattern < Format.single.signBit := by decide
  have hleftover : (c.leftover t).toBits.toNat < Format.double.infinity :=
    (rat_sub_floor_le (h.toNat_scaledMs_lt t)).2.1
  have hkept : (c.step t).carryMs = narrow (c.leftover t) := by rw [step_eq]
  rw [hkept] at hle ⊢
  rw [isFraction_iff, ← toNat_narrow_lt_onePattern_iff hleftover]
  constructor
  · rintro (hlt | hzero)
    · exact hlt
    · -- No step leaves a sign on a zero.
      omega
  · exact Or.inl

theorem Carries.call (h : c.Carries) (k : ClockCall) : (c.call k).Carries := by
  cases k with
  | step t =>
    have hscale : (c.step t).scale = c.scale := by rw [step_eq]
    refine ⟨hscale ▸ h.scale, ?_⟩
    rcases (h.toNat_step_le t).lt_or_eq with hlt | hone
    · exact Or.inl ((isFraction_iff _).mpr (Or.inl hlt))
    · exact Or.inr ((eq_one_iff _).mpr hone)
  | rescale scale hscale =>
    refine ⟨?_, h.carry⟩
    change scale.toBits.toNat ≠ Format.single.infinity
    have := Format.single.infinity_lt_signBit
    rcases (isNonneg_iff scale).mp hscale with hlt | hzero
    · exact hlt.ne
    · omega

/-- What one call keeps, every run of calls keeps. -/
theorem Carries.after (h : c.Carries) (calls : List ClockCall) : (c.after calls).Carries := by
  induction calls generalizing c with
  | nil => exact h
  | cons k calls ih => exact ih (h.call k)

/-! ### At rest -/

theorem floor_eq_toFloat {x : Float} (hx : x.toBits.toNat < Format.double.infinity) {n : UInt32}
    (hn : ⌊Format.double.rat x.toBits.toNat⌋₊ = n.toNat) : floor x = n.toFloat := by
  apply double_eq_of_toNat_toBits
  rw [toNat_floor hx, hn, toNat_toFloat]

/-- At rest only what is carried goes into a step. -/
theorem rat_scaledMs_of_rest (hrest : ¬ 0.0 < c.scale)
    (hcarry : c.carryMs.toBits.toNat < Format.single.infinity) (t : ClockStep) :
    (c.scaledMs t.rawMs).toBits.toNat < Format.double.infinity ∧
      Format.double.rat (c.scaledMs t.rawMs).toBits.toNat =
        Format.single.rat c.carryMs.toBits.toNat := by
  obtain ⟨hfinite, hexact⟩ := rat_rounded_single hcarry
  rw [← toNat_widen hcarry] at hfinite hexact
  have hproduct : (t.rawMs * widen (positivePart c.scale)).toBits.toNat = 0 := by
    have hwiden : (widen 0.0).toBits.toNat = 0 := by decide
    rw [positivePart, if_neg hrest, toNat_mul_double t.rawMs_le.1 (by decide), hwiden,
      Format.rat_zero, mul_zero, Format.rounded_zero]
  have hscaled : (c.scaledMs t.rawMs).toBits.toNat = (widen c.carryMs).toBits.toNat := by
    rw [scaledMs, toNat_add_double (by rw [hproduct]; decide) hfinite, hproduct, Format.rat_zero, zero_add,
      Format.rounded_rat hfinite]
  rw [hscaled]
  exact ⟨hfinite, hexact⟩

theorem step_of_rest_of_le (hrest : ¬ 0.0 < c.scale) (hcarry : c.carryMs.toBits.toNat ≤ onePattern)
    (t : ClockStep) :
    IsFraction (c.step t).carryMs ∧
      (c.step t).elapsedMs = c.elapsedMs + if c.carryMs = 1.0 then 1 else 0 := by
  have hfinite := hcarry.trans_lt onePattern_lt_infinity
  obtain ⟨hscaled, hrat⟩ := rat_scaledMs_of_rest hrest hfinite t
  obtain ⟨hleftover, hleftover', -⟩ := rat_sub_floor_le hscaled
  have hkept : (c.step t).carryMs.toBits.toNat = Format.single.rounded
      (Format.double.rat (c.scaledMs t.rawMs - floor (c.scaledMs t.rawMs)).toBits.toNat) := by
    rw [step_eq]
    exact toNat_narrow hleftover'
  have helapsed : (c.step t).elapsedMs =
      c.elapsedMs + (wholeMs (floor (c.scaledMs t.rawMs))).toUInt64 := by
    rw [step_eq]
  rw [isFraction_iff, hkept, helapsed, hleftover]
  rcases hcarry.lt_or_eq with hlt | hone
  · -- A fraction has no whole part, and is left over as it was.
    have hbelow : Format.double.rat (c.scaledMs t.rawMs).toBits.toNat < 1 := by
      rw [hrat, ← rat_onePattern]
      exact (Format.rat_lt_iff hfinite onePattern_lt_infinity).mpr hlt
    have hwhole : ⌊Format.double.rat (c.scaledMs t.rawMs).toBits.toNat⌋₊ = 0 :=
      Nat.floor_eq_zero.mpr hbelow
    have hfloor : floor (c.scaledMs t.rawMs) = UInt32.toFloat 0 := floor_eq_toFloat hscaled hwhole
    have hcount : wholeMs (UInt32.toFloat 0) = 0 := by decide
    have hne : c.carryMs ≠ 1.0 := fun heq => hlt.ne ((eq_one_iff _).mp heq)
    rw [hwhole, Nat.cast_zero, sub_zero, Format.rounded_rat hscaled, hrat, Format.rounded_rat hfinite,
      hfloor, hcount, if_neg hne]
    exact ⟨Or.inl hlt, rfl⟩
  · have hwhole : ⌊Format.double.rat (c.scaledMs t.rawMs).toBits.toNat⌋₊ = 1 := by
      rw [hrat, hone, rat_onePattern, Nat.floor_one]
    have hfloor : floor (c.scaledMs t.rawMs) = UInt32.toFloat 1 := floor_eq_toFloat hscaled hwhole
    have hcount : wholeMs (UInt32.toFloat 1) = 1 := by decide
    rw [hwhole, hrat, hone, rat_onePattern, Nat.cast_one, sub_self, Format.rounded_zero, hfloor, hcount,
      if_pos ((eq_one_iff _).mpr hone)]
    rw [Format.rat_zero, Format.rounded_zero]
    exact ⟨Or.inl (by decide), rfl⟩

/-- At rest a clock counts a millisecond only if it carries a whole one, and it does so once. -/
theorem Carries.step_of_rest (h : c.Carries) (hrest : ¬ 0.0 < c.scale) (t : ClockStep) :
    IsFraction (c.step t).carryMs ∧
      (c.step t).elapsedMs = c.elapsedMs + if c.carryMs = 1.0 then 1 else 0 := by
  rcases h.cases with hle | hzero
  · exact step_of_rest_of_le hrest hle t
  · have hne : c.carryMs ≠ 1.0 := by
      rw [ne_eq, eq_one_iff, hzero]
      decide
    have hone : (0.0 : Float32) ≠ 1.0 := by decide
    have hunsigned : (0.0 : Float32).toBits.toNat ≤ onePattern := by decide
    have hstep := step_of_rest_of_le (c := { c with carryMs := 0.0 }) hrest hunsigned t
    rw [if_neg hone, ← step_of_negative_zero hzero] at hstep
    rw [if_neg hne]
    exact hstep

/-! ### At an infinite scale -/

theorem after_of_isNaN (h : c.carryMs.isNaN = true) (calls : List ClockCall) :
    (c.after calls).carryMs.isNaN = true ∧ (c.after calls).elapsedMs = c.elapsedMs := by
  induction calls generalizing c with
  | nil => exact ⟨h, rfl⟩
  | cons k calls ih =>
    cases k with
    | step t =>
      obtain ⟨hcarry, helapsed⟩ := advance_of_isNaN h t.rawMs
      rw [← step_eq_advance] at hcarry helapsed
      obtain ⟨hafter, hafter'⟩ := ih hcarry
      exact ⟨hafter, hafter'.trans helapsed⟩
    | rescale scale hscale => exact ih h

theorem step_of_infinite (hscale : c.scale.toBits.toNat = Format.single.infinity)
    (hcarry : IsFraction c.carryMs) (t : ClockStep) : (c.step t).carryMs.isNaN = true := by
  rcases (isFraction_iff _).mp hcarry with hlt | hzero
  · rw [step_eq_advance]
    exact advance_of_infinite hscale (hlt.trans onePattern_lt_infinity) t.rawMs_le.1
  · have hunsigned : (0.0 : Float32).toBits.toNat < Format.single.infinity := by decide
    rw [step_of_negative_zero hzero, step_eq_advance]
    exact advance_of_infinite (c := { c with carryMs := 0.0 }) hscale hunsigned t.rawMs_le.1

/-! ### Calls -/

/-- Whatever happens to a clock that starts with a fraction, it carries a fraction or one. A step
leaves one exactly where it leaves over as much as the limit, and at rest a millisecond is counted
exactly by the first step after that. Only a clock that starts at an infinite scale and takes a step
there is left without a number, and it never counts another millisecond. -/
theorem after_carryMs (hcarry : IsFraction c.carryMs) :
    (c.scale.toBits.toNat ≠ Format.single.infinity → ∀ calls,
      (IsFraction (c.after calls).carryMs ∨ (c.after calls).carryMs = 1.0) ∧
      (∀ t, IsFraction ((c.after calls).step t).carryMs ↔ (c.after calls).leftover t < carryLimit) ∧
      (¬ 0.0 < (c.after calls).scale → ∀ t,
        IsFraction ((c.after calls).step t).carryMs ∧
        ((c.after calls).step t).elapsedMs =
          (c.after calls).elapsedMs + if (c.after calls).carryMs = 1.0 then 1 else 0)) ∧
    (c.scale.toBits.toNat = Format.single.infinity → ∀ t calls,
      (c.after (.step t :: calls)).carryMs.isNaN = true ∧
      (c.after (.step t :: calls)).elapsedMs = (c.step t).elapsedMs) := by
  constructor
  · intro hscale calls
    have hcarries : (c.after calls).Carries := Carries.after ⟨hscale, Or.inl hcarry⟩ calls
    exact ⟨hcarries.carry, hcarries.isFraction_step_iff, hcarries.step_of_rest⟩
  · intro hscale t calls
    exact after_of_isNaN (step_of_infinite hscale hcarry t) calls

/-- A clock at the scale 8191 / 2 ^ 26, at which 8193 ms take one millisecond less 2 ^ -26. -/
def slowed : Clock :=
  { scale := .ofBits 0x38fff800 }

theorem isFraction_slowed : IsFraction slowed.carryMs := by
  rw [isFraction_iff]
  decide

theorem isNonneg_zero : IsNonneg 0.0 := by
  rw [isNonneg_iff]
  decide

theorem after_carryMs_slowed :
    let halted := slowed.after [.step (.ms 8193), .rescale 0.0 isNonneg_zero]
    IsFraction slowed.carryMs ∧ slowed.scale.toBits.toNat ≠ Format.single.infinity ∧
      halted.carryMs = 1.0 ∧ halted.elapsedMs = 0 ∧ ¬ 0.0 < halted.scale ∧
      IsFraction (halted.step (.ms 0)).carryMs ∧ (halted.step (.ms 0)).elapsedMs = 1 := by
  intro halted
  have hscale : slowed.scale.toBits.toNat ≠ Format.single.infinity := by decide
  have hone : halted.carryMs = 1.0 := by decide +kernel
  have hnone : halted.elapsedMs = 0 := by decide +kernel
  have hrest : ¬ 0.0 < halted.scale := by
    rw [zero_lt_single_iff]
    decide
  obtain ⟨hfraction, helapsed⟩ := ((after_carryMs isFraction_slowed).1 hscale
    [.step (.ms 8193), .rescale 0.0 isNonneg_zero]).2.2 hrest (.ms 0)
  refine ⟨isFraction_slowed, hscale, hone, hnone, hrest, hfraction, ?_⟩
  rw [helapsed, if_pos hone, hnone]
  rfl

/-- A clock does not always carry a fraction, nor does it always stand still at rest. -/
theorem not_always_isFraction :
    (¬ ∀ (c : Clock) (calls : List ClockCall), IsNonneg c.scale → IsFraction c.carryMs →
      IsFraction (c.after calls).carryMs) ∧
    ¬ ∀ (c : Clock) (calls : List ClockCall) (t : ClockStep), IsNonneg c.scale →
      IsFraction c.carryMs → ¬ 0.0 < (c.after calls).scale →
        ((c.after calls).step t).elapsedMs ≤ (c.after calls).elapsedMs := by
  have hscale : IsNonneg slowed.scale := by
    rw [isNonneg_iff]
    decide
  constructor
  · intro h
    have hfraction := h slowed [.step (.ms 8193)] hscale isFraction_slowed
    rw [isFraction_iff] at hfraction
    exact absurd hfraction (by decide +kernel)
  · intro h
    have hrest : ¬ 0.0 < (slowed.after [.step (.ms 8193), .rescale 0.0 isNonneg_zero]).scale := by
      rw [zero_lt_single_iff]
      decide
    exact absurd (h slowed _ (.ms 0) hscale isFraction_slowed hrest) (by decide +kernel)

end Clock

end TileWorld
