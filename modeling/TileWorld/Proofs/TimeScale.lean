import TileWorld.Proofs.ClockCarry

/-! The time scale that a settings file leaves. A file is refused by the double it names, the clock
runs at the nearest single, and between the greatest single and the greatest double the two part. -/
namespace TileWorld

open Number

/-! ### The narrowed scale -/

/-- The middle between the greatest single and the next power of two, from which on doubles narrow to
infinity. -/
def Number.singleLimit : Float :=
  doubleOfInt (2 ^ 128 - 2 ^ 103)

theorem toNat_singleLimit : singleLimit.toBits.toNat = Format.double.pattern 75 ((2 ^ 25 - 1) * 2 ^ 28) := by
  decide

theorem rat_singleLimit : Format.double.rat singleLimit.toBits.toNat = 2 ^ 128 - 2 ^ 103 := by
  have hleast : Format.double.minExponent ≤ 75 := by decide
  have hrat := Format.rat_pattern (q := (2 ^ 25 - 1) * 2 ^ 28) hleast (by decide) (Or.inr (by decide))
  rw [toNat_singleLimit, hrat]
  norm_num

theorem rounded_single_lt_infinity_iff {y : ℚ} (hy : 0 ≤ y) :
    Format.single.rounded y < Format.single.infinity ↔ y < 2 ^ 128 - 2 ^ 103 := by
  have hlast : Format.single.infinity = Format.single.pattern 104 (2 ^ 24 - 1) + 1 := by decide
  have hdecode : Format.single.decode (Format.single.pattern 104 (2 ^ 24 - 1)) = (2 ^ 24 - 1, 104) := by
    decide
  have hmid : Format.single.mid (Format.single.pattern 104 (2 ^ 24 - 1)) = 2 ^ 128 - 2 ^ 103 := by
    rw [Format.mid, hdecode]
    norm_num
  have hp : Format.single.pattern 104 (2 ^ 24 - 1) < Format.single.infinity := by omega
  have hle := Format.rounded_le_iff hy hp
  rw [hmid, hdecode] at hle
  rw [hlast, Nat.lt_succ_iff, hle]
  norm_num

/-- A double that is a number and not below zero narrows to one, unless it is too great. -/
theorem isNonneg_narrow_iff {x : Float} (hx : x.isFinite = true ∧ ¬ x < doubleOfInt 0) :
    (IsNonneg (narrow x) ↔ ¬ singleLimit ≤ x) ∧
      (¬ IsNonneg (narrow x) → (narrow x).toBits.toNat = Format.single.infinity) := by
  rw [isNonneg_iff]
  rcases (isFinite_and_not_neg_iff x).mp hx with hlt | hzero
  · have hbound := Format.single.infinity_lt_signBit
    have hle := Format.single.rounded_le_infinity (Format.double.rat x.toBits.toNat)
    have hlimit : singleLimit.toBits.toNat < Format.double.infinity := by
      rw [toNat_singleLimit]
      decide
    have horder : singleLimit ≤ x ↔ ¬ Format.double.rat x.toBits.toNat < 2 ^ 128 - 2 ^ 103 := by
      rw [double_le_iff hlimit hlt, ← rat_singleLimit, Format.rat_lt_iff hlt hlimit, not_lt]
    rw [toNat_narrow hlt, horder, not_not, ← rounded_single_lt_infinity_iff (Format.rat_nonneg _ _)]
    omega
  · -- Zero with a sign stays what it is.
    have hvalue : doubleValue x = .finite true 0 Format.double.minExponent := by
      rw [doubleValue, hzero]
      exact Format.value_finite true (by decide : 0 < Format.double.infinity)
    have hnarrow : (narrow x).toBits.toNat = Format.single.signBit := by
      rw [narrow, hvalue, Format.encode_finite, Nat.cast_zero, zero_mul, Format.rounded_zero]
      exact toNat_singleOfPattern true (Nat.zero_le _)
    have hlimit : ¬ singleLimit ≤ x := by
      change ¬ (decide _ = true)
      rw [decide_eq_true_iff]
      change ¬ (singleLimit.toModel.unpack.le x.toModel.unpack = true)
      rw [unpack_double x, hvalue]
      decide
    exact ⟨iff_of_true (Or.inr hnarrow) hlimit, fun h => absurd (Or.inr hnarrow) h⟩

/-! ### Reading the file -/

namespace Settings

/-- The time scale that a settings file names. -/
def namedScale? (s : Settings) (files : FileView) : Option Numeral :=
  match s.document files with
  | .ok d => (d.find? "animation" "time_scale").bind Numeral.parse?
  | .error _ => none

theorem apply_cons_eq_none_iff (d : Ini.Document)
    (read : Ini.Document → Settings → Except SettingsError Settings)
    (rest : List (Ini.Document → Settings → Except SettingsError Settings)) (s s' : Settings) :
    apply d (read :: rest) s = (none, s') ↔ ∃ s₁, read d s = .ok s₁ ∧ apply d rest s₁ = (none, s') := by
  rw [apply]
  cases read d s <;> simp

theorem timeScale_of_readThreshold {d : Ini.Document} {s s' : Settings}
    (h : readThreshold d s = .ok s') : s'.timeScale = s.timeScale := by
  rw [readThreshold] at h
  split at h
  next => rw [Except.ok.inj h]
  next =>
    split at h
    · rw [← Except.ok.inj h]
    · cases h

theorem timeScale_of_readZeroHolds {d : Ini.Document} {s s' : Settings}
    (h : readZeroHolds d s = .ok s') : s'.timeScale = s.timeScale := by
  rw [readZeroHolds] at h
  split at h <;> rw [← Except.ok.inj h]

theorem timeScale_of_readTilesetDir {d : Ini.Document} {s s' : Settings}
    (h : readTilesetDir d s = .ok s') : s'.timeScale = s.timeScale := by
  rw [readTilesetDir] at h
  split at h <;> rw [← Except.ok.inj h]

/-- A file that loads leaves the time scale alone or names one that is a number and not below zero. -/
theorem timeScale_of_load {s s' : Settings} {files : FileView} (h : s.load files = (none, s')) :
    (s.namedScale? files = none ∧ s'.timeScale = s.timeScale) ∨
      ∃ n, s.namedScale? files = some n ∧
        (n.toDouble.isFinite = true ∧ ¬ n.toDouble < doubleOfInt 0) ∧
        s'.timeScale = narrow n.toDouble := by
  rw [load] at h
  split at h
  next d hd =>
    simp only [readers, apply_cons_eq_none_iff] at h
    obtain ⟨s₁, h₁, s₂, h₂, s₃, h₃, s₄, h₄, h₅⟩ := h
    have hlast : s' = s₄ := by
      rw [apply, Prod.mk.injEq] at h₅
      exact h₅.2.symm
    have hbefore := (timeScale_of_readZeroHolds h₂).trans (timeScale_of_readThreshold h₁)
    have hafter := timeScale_of_readTilesetDir h₄
    rw [namedScale?, hd, hlast, hafter]
    rw [readTimeScale] at h₃
    dsimp only
    split at h₃
    next hnone =>
      refine Or.inl ⟨hnone, ?_⟩
      rw [← Except.ok.inj h₃, hbefore]
    next n hsome =>
      refine Or.inr ⟨n, hsome, ?_⟩
      dsimp only at h₃
      split at h₃
      · cases h₃
      next hrange =>
        refine ⟨by simpa using hrange, ?_⟩
        rw [← Except.ok.inj h₃]
  next => cases h

end Settings

/-! ### Worlds built from it -/

namespace World

/-- The world after a tick, in either unit. -/
def step (w : World) : ClockStep → World
  | .ms n => (w.tick n).1
  | .seconds x => (w.tickSeconds x).1

/-- The world after ticks, one after the other. -/
def runSteps (w : World) (steps : List ClockStep) : World :=
  steps.foldl step w

theorem clock_runSteps (w : World) (steps : List ClockStep) :
    (w.runSteps steps).clock = w.clock.run steps := by
  induction steps generalizing w with
  | nil => rfl
  | cons t steps ih =>
    have hstep : (w.step t).clock = w.clock.step t := by cases t <;> rfl
    rw [Clock.run, List.foldl_cons, ← hstep]
    exact ih (w.step t)

end World

namespace Settings

/-- A settings file leaves a time scale that a clock can use unless it names one beyond all singles.
A world built from it then never loses the number that it carries; a scale beyond all singles takes
that number away with the first tick, and the world's time stands still from then on. -/
theorem load_timeScale {s s' : Settings} {files : FileView} (hs : IsNonneg s.timeScale)
    (h : s.load files = (none, s')) :
    (IsNonneg s'.timeScale ↔ ¬ ∃ n, s.namedScale? files = some n ∧ singleLimit ≤ n.toDouble) ∧
    (IsNonneg s'.timeScale → ∀ steps,
      ((World.ofSettings s').runSteps steps).clock.carryMs.isNaN = false) ∧
    (¬ IsNonneg s'.timeScale → ∀ t steps,
      ((World.ofSettings s').runSteps (t :: steps)).clock.carryMs.isNaN = true ∧
      ((World.ofSettings s').runSteps (t :: steps)).clock.elapsedMs =
        ((World.ofSettings s').runSteps [t]).clock.elapsedMs) := by
  have hclock (steps : List ClockStep) :
      ((World.ofSettings s').runSteps steps).clock = Clock.run { scale := s'.timeScale } steps :=
    World.clock_runSteps _ steps
  have hcarry : (Clock.carryMs { scale := s'.timeScale }).toBits.toNat ≤ onePattern :=
    show (0.0 : Float32).toBits.toNat ≤ onePattern by decide
  refine ⟨?_, fun hscale steps => ?_, fun hscale t steps => ?_⟩
  · rcases timeScale_of_load h with ⟨hnone, hsame⟩ | ⟨n, hsome, hrange, hnarrow⟩
    · rw [hsame, hnone]
      simp [hs]
    · rw [hnarrow, hsome, (isNonneg_narrow_iff hrange).1]
      simp
  · have hle := Clock.run_carryMs_le (c := { scale := s'.timeScale }) hscale.1 hcarry steps
    rw [hclock]
    generalize (Clock.run { scale := s'.timeScale } steps).carryMs = x at hle
    rw [Bool.eq_false_iff, ne_eq, isNaN_single_iff, singleValue_of_lt (hle.trans_lt onePattern_lt_infinity)]
    simp
  · have hinfinite : s'.timeScale.toBits.toNat = Format.single.infinity := by
      rcases timeScale_of_load h with ⟨-, hsame⟩ | ⟨n, -, hrange, hnarrow⟩
      · rw [hsame] at hscale
        exact absurd hs hscale
      · rw [hnarrow] at hscale ⊢
        exact (isNonneg_narrow_iff hrange).2 hscale
    have hfirst : (Clock.run { scale := s'.timeScale } [t]).carryMs.isNaN = true := by
      have := Clock.advance_of_infinite (c := { scale := s'.timeScale }) hinfinite
        (hcarry.trans_lt onePattern_lt_infinity) t.rawMs_le.1
      rwa [← Clock.step_eq_advance] at this
    rw [hclock, hclock]
    exact Clock.run_of_isNaN hfirst steps

/-- The settings that `time_scale=1e39` leaves. -/
def infiniteScale : Settings :=
  { timeScale := singleOfPattern Format.single.infinity }

theorem load_infiniteScale :
    ({} : Settings).load (fun _ => .ok "[animation]\ntime_scale=1e39\n") = (none, infiniteScale) := by
  decide

theorem isNonneg_default : IsNonneg ({} : Settings).timeScale := by
  rw [isNonneg_iff]
  decide

theorem not_isNonneg_infiniteScale : ¬ IsNonneg infiniteScale.timeScale := by
  rw [isNonneg_iff]
  decide

theorem load_timeScale_1e39 :
    IsNonneg ({} : Settings).timeScale ∧
      ({} : Settings).load (fun _ => .ok "[animation]\ntime_scale=1e39\n") = (none, infiniteScale) ∧
      ∀ t steps,
        ((World.ofSettings infiniteScale).runSteps (t :: steps)).clock.carryMs.isNaN = true ∧
        ((World.ofSettings infiniteScale).runSteps (t :: steps)).clock.elapsedMs =
          ((World.ofSettings infiniteScale).runSteps [t]).clock.elapsedMs :=
  ⟨isNonneg_default, load_infiniteScale,
    (load_timeScale isNonneg_default load_infiniteScale).2.2 not_isNonneg_infiniteScale⟩

/-- Loading alone does not keep the time scale a number. -/
theorem load_leaves_infinite_scale :
    ¬ ∀ (s s' : Settings) (files : FileView), IsNonneg s.timeScale → s.load files = (none, s') →
      IsNonneg s'.timeScale ∧
        ∀ steps, ((World.ofSettings s').runSteps steps).clock.carryMs.isNaN = false :=
  fun h => not_isNonneg_infiniteScale (h _ _ _ isNonneg_default load_infiniteScale).1

end Settings

end TileWorld
