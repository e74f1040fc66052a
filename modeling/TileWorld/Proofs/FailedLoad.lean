import TileWorld.Proofs.TimeScale

/-! What a load of settings leaves behind, whether it succeeds or fails. Its readers take effect one
after the other, so a load that fails keeps what the readers in front of the failing one have set: a
file with a bad time scale still leaves its hold policy. -/
namespace TileWorld

open Number

namespace Settings

/-! ### The values that a file names -/

def namedThreshold? (s : Settings) (files : FileView) : Option Nat :=
  match s.document files with
  | .ok d => (d.find? "animation" "hold_threshold_ms").bind (readNat? 0xFFFFFFFFFFFFFFFF)
  | .error _ => none

def namedZeroHolds? (s : Settings) (files : FileView) : Option Bool :=
  match s.document files with
  | .ok d => (d.find? "animation" "zero_duration_holds").bind readBool?
  | .error _ => none

def namedTilesetDir? (s : Settings) (files : FileView) : Option String :=
  match s.document files with
  | .ok d => (d.find? "assets" "tileset_dir").map String.ofList
  | .error _ => none

/-- Settings with the hold policy that a file names, where it names one, and all else as before. -/
structure TakesPolicy (s : Settings) (files : FileView) (s' : Settings) : Prop where
  holdThresholdMs :
    s'.holdThresholdMs.toNat = (s.namedThreshold? files).getD s.holdThresholdMs.toNat
  zeroDurationHolds : s'.zeroDurationHolds = (s.namedZeroHolds? files).getD s.zeroDurationHolds
  timeScale : s'.timeScale = s.timeScale
  tilesetDir : s'.tilesetDir = s.tilesetDir
  path : s'.path = s.path

variable {s s' : Settings} {d : Ini.Document} {files : FileView} {e : SettingsError}

/-! ### The readers, each on its own field -/

theorem apply_cons_eq_error_iff (d : Ini.Document)
    (read : Ini.Document → Settings → Except SettingsError Settings)
    (rest : List (Ini.Document → Settings → Except SettingsError Settings)) (s s' : Settings)
    (e : SettingsError) :
    apply d (read :: rest) s = (some e, s') ↔
      (read d s = .error e ∧ s = s') ∨
        ∃ s₁, read d s = .ok s₁ ∧ apply d rest s₁ = (some e, s') := by
  rw [apply]
  cases read d s <;> simp

theorem readThreshold_eq_ok (hd : s.document files = .ok d) (h : readThreshold d s = .ok s') :
    s' = { s with holdThresholdMs := s'.holdThresholdMs } ∧
      s'.holdThresholdMs.toNat = (s.namedThreshold? files).getD s.holdThresholdMs.toNat := by
  rw [namedThreshold?, hd]
  dsimp only
  rw [readThreshold] at h
  split at h
  next hnone =>
    obtain rfl := Except.ok.inj h
    simp [hnone]
  next n hsome =>
    split at h
    next hlt =>
      obtain rfl := Except.ok.inj h
      simp [hsome, UInt32.toNat_ofNat_of_lt' hlt]
    next => cases h

theorem readThreshold_eq_error (h : readThreshold d s = .error e) :
    ∃ n, e = .thresholdOutOfRange n := by
  rw [readThreshold] at h
  split at h
  next => cases h
  next n _ =>
    split at h
    · cases h
    · exact ⟨n, (Except.error.inj h).symm⟩

theorem readZeroHolds_eq (hd : s.document files = .ok d) (s₁ : Settings) :
    readZeroHolds d s₁ = .ok
      { s₁ with zeroDurationHolds := (s.namedZeroHolds? files).getD s₁.zeroDurationHolds } := by
  rw [readZeroHolds, namedZeroHolds?, hd]
  dsimp only
  split
  next hnone => rw [hnone, Option.getD_none]
  next b hsome => rw [hsome, Option.getD_some]

theorem readTimeScale_eq_ok (hd : s.document files = .ok d) {s₁ s₂ : Settings}
    (h : readTimeScale d s₁ = .ok s₂) :
    s₂ = { s₁ with timeScale :=
      ((s.namedScale? files).map fun n => narrow n.toDouble).getD s₁.timeScale } := by
  rw [namedScale?, hd]
  dsimp only
  rw [readTimeScale] at h
  split at h
  next hnone => rw [hnone, ← Except.ok.inj h, Option.map_none, Option.getD_none]
  next n hsome =>
    dsimp only at h
    split at h
    · cases h
    · rw [hsome, ← Except.ok.inj h, Option.map_some, Option.getD_some]

theorem readTimeScale_eq_error (h : readTimeScale d s = .error e) :
    ∃ x, e = .invalidTimeScale x := by
  rw [readTimeScale] at h
  split at h
  next => cases h
  next n _ =>
    dsimp only at h
    split at h
    · exact ⟨_, (Except.error.inj h).symm⟩
    · cases h

theorem readTilesetDir_eq (hd : s.document files = .ok d) (s₁ : Settings) :
    readTilesetDir d s₁ = .ok
      { s₁ with tilesetDir := (s.namedTilesetDir? files).getD s₁.tilesetDir } := by
  rw [readTilesetDir, namedTilesetDir?, hd]
  dsimp only
  cases d.find? "assets" "tileset_dir" with
  | none => rfl
  | some dir => rfl

/-! ### Whole loads -/

theorem document_ne_invalidTimeScale (h : s.document files = .error e) (x : Float) :
    e ≠ .invalidTimeScale x := by
  rw [document] at h
  cases hfile : files s.path with
  | error cause =>
    rw [hfile] at h
    have he : SettingsError.unreadable s.path cause = e := Except.error.inj h
    simp [← he]
  | ok text =>
    rw [hfile] at h
    have he : (Ini.parse text).mapError (SettingsError.malformed s.path) = .error e := h
    cases hparse : Ini.parse text with
    | error cause =>
      rw [hparse] at he
      simp [← Except.error.inj he]
    | ok d =>
      rw [hparse] at he
      cases he

/-- Only a bad time scale fails behind a reader that has set something. -/
theorem load_eq_error (h : s.load files = (some e, s')) :
    ((∀ x, e ≠ .invalidTimeScale x) ∧ s' = s) ∨
      (∃ x, e = .invalidTimeScale x) ∧ s.TakesPolicy files s' := by
  rw [load] at h
  split at h
  next d hd =>
    simp only [readers, apply_cons_eq_error_iff] at h
    rcases h with ⟨hfirst, rfl⟩ | ⟨s₁, h₁, h⟩
    · obtain ⟨n, rfl⟩ := readThreshold_eq_error hfirst
      exact Or.inl ⟨by simp, rfl⟩
    obtain ⟨hs₁, hthreshold⟩ := readThreshold_eq_ok hd h₁
    rw [readZeroHolds_eq hd] at h
    rcases h with ⟨hsecond, -⟩ | ⟨s₂, h₂, h⟩
    · cases hsecond
    obtain rfl := Except.ok.inj h₂
    rcases h with ⟨hthird, rfl⟩ | ⟨s₃, -, h⟩
    · refine Or.inr ⟨readTimeScale_eq_error hthird, hthreshold, ?_, ?_, ?_, ?_⟩ <;> rw [hs₁]
    -- The last reader always succeeds, and behind it there is none.
    rw [readTilesetDir_eq hd] at h
    rcases h with ⟨hlast, -⟩ | ⟨s₄, -, h⟩
    · cases hlast
    · simp [apply] at h
  next e' hd =>
    rw [Prod.mk.injEq] at h
    obtain rfl := Option.some.inj h.1
    exact Or.inl ⟨document_ne_invalidTimeScale hd, h.2.symm⟩

/-- A load that succeeds leaves what the file names, field by field, and all else as before. -/
theorem load_eq_ok (h : s.load files = (none, s')) :
    s'.path = s.path ∧
      s'.holdThresholdMs.toNat = (s.namedThreshold? files).getD s.holdThresholdMs.toNat ∧
      s'.zeroDurationHolds = (s.namedZeroHolds? files).getD s.zeroDurationHolds ∧
      s'.timeScale = ((s.namedScale? files).map fun n => narrow n.toDouble).getD s.timeScale ∧
      s'.tilesetDir = (s.namedTilesetDir? files).getD s.tilesetDir := by
  rw [load] at h
  split at h
  next d hd =>
    simp only [readers, apply_cons_eq_none_iff, readZeroHolds_eq hd, readTilesetDir_eq hd] at h
    obtain ⟨s₁, h₁, s₂, h₂, s₃, h₃, s₄, h₄, h₅⟩ := h
    obtain ⟨hs₁, hthreshold⟩ := readThreshold_eq_ok hd h₁
    obtain rfl := Except.ok.inj h₂
    obtain rfl := readTimeScale_eq_ok hd h₃
    obtain rfl := Except.ok.inj h₄
    rw [apply, Prod.mk.injEq] at h₅
    obtain rfl := h₅.2
    refine ⟨?_, hthreshold, ?_, ?_, ?_⟩ <;> rw [hs₁]
  next => cases h

theorem TakesPolicy.ne_iff (h : s.TakesPolicy files s') :
    s' ≠ s ↔ (∃ n, s.namedThreshold? files = some n ∧ n ≠ s.holdThresholdMs.toNat) ∨
      ∃ b, s.namedZeroHolds? files = some b ∧ b ≠ s.zeroDurationHolds := by
  have hsame : s' = s ↔ s'.holdThresholdMs.toNat = s.holdThresholdMs.toNat ∧
      s'.zeroDurationHolds = s.zeroDurationHolds := by
    obtain ⟨-, -, hscale, hdir, hpath⟩ := h
    cases s
    cases s'
    simp_all [UInt32.toNat_inj]
  rw [ne_eq, hsame, h.holdThresholdMs, h.zeroDurationHolds]
  cases s.namedThreshold? files <;> cases s.namedZeroHolds? files <;> simp [imp_iff_not_or]

/-- A load that fails changes nothing, unless it fails for the time scale and the file names another
hold policy: that policy is kept, and the rest is as before. A load that succeeds leaves the path
alone, and takes each other field from the file's value for its key where there is one. -/
theorem load_changes (s s' : Settings) (files : FileView) :
    (∀ e, s.load files = (some e, s') →
      (s' = s ∨ s.TakesPolicy files s') ∧
      (s' ≠ s ↔ (∃ x, e = .invalidTimeScale x) ∧
        ((∃ n, s.namedThreshold? files = some n ∧ n ≠ s.holdThresholdMs.toNat) ∨
          ∃ b, s.namedZeroHolds? files = some b ∧ b ≠ s.zeroDurationHolds))) ∧
    (s.load files = (none, s') →
      s'.path = s.path ∧
      s'.holdThresholdMs.toNat = (s.namedThreshold? files).getD s.holdThresholdMs.toNat ∧
      s'.zeroDurationHolds = (s.namedZeroHolds? files).getD s.zeroDurationHolds ∧
      s'.timeScale = ((s.namedScale? files).map fun n => narrow n.toDouble).getD s.timeScale ∧
      s'.tilesetDir = (s.namedTilesetDir? files).getD s.tilesetDir) := by
  refine ⟨?_, load_eq_ok⟩
  intro e h
  rcases load_eq_error h with ⟨hother, hsame⟩ | ⟨hscale, htakes⟩
  · refine ⟨Or.inl hsame, iff_of_false (not_not_intro hsame) ?_⟩
    rintro ⟨⟨x, hx⟩, -⟩
    exact hother x hx
  · exact ⟨Or.inr htakes, by rw [htakes.ne_iff, and_iff_right hscale]⟩

/-- A file with a hold threshold and a time scale below zero. -/
def negativeScale : FileView :=
  fun _ => .ok "[animation]\nhold_threshold_ms=5\ntime_scale=-1\n"

theorem load_negativeScale :
    ({} : Settings).load negativeScale =
      (some (.invalidTimeScale (doubleOfInt (-1))), { holdThresholdMs := 5 }) := by
  decide

theorem load_changes_negativeScale :
    ({} : Settings).load negativeScale =
        (some (.invalidTimeScale (doubleOfInt (-1))), { holdThresholdMs := 5 }) ∧
      ({} : Settings).TakesPolicy negativeScale { holdThresholdMs := 5 } := by
  have hchanged : ({ holdThresholdMs := 5 } : Settings) ≠ {} := by decide
  have hload := ((load_changes _ _ negativeScale).1 _ load_negativeScale).1
  exact ⟨load_negativeScale, hload.resolve_left hchanged⟩

/-- A failed load may leave settings that are neither the old ones nor those of the file. -/
theorem exists_failed_load_ne :
    ¬ ∀ (s s' : Settings) (files : FileView) (e : SettingsError),
      s.load files = (some e, s') → s' = s := by
  intro h
  have hsame := h _ _ _ _ load_negativeScale
  exact absurd hsame (by decide)

end Settings

end TileWorld
