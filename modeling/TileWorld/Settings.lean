import TileWorld.Error
import TileWorld.Number.Decimal

/-! The settings of a world and their file. -/
namespace TileWorld

structure Settings where
  holdThresholdMs : UInt32 := 10000
  zeroDurationHolds : Bool := true
  timeScale : Float32 := 1.0
  /-- The folder that tileset ids are relative to. -/
  tilesetDir : String := "./assets/tilesets"
  /-- The file that the settings are read from and saved to. -/
  path : String := "./tilesmith.ini"
deriving DecidableEq, Inhabited

namespace Settings

def holdPolicy (s : Settings) : HoldPolicy :=
  ⟨s.holdThresholdMs, s.zeroDurationHolds⟩

def readThreshold (d : Ini.Document) (s : Settings) : Except SettingsError Settings :=
  match (d.find? "animation" "hold_threshold_ms").bind (Number.readNat? 0xFFFFFFFFFFFFFFFF) with
  | none => .ok s
  | some n =>
    if n < UInt32.size then .ok { s with holdThresholdMs := .ofNat n }
    else .error (.thresholdOutOfRange n)

/-- A truth value in any case. -/
def readBool? (cs : List Char) : Option Bool :=
  if Text.lower cs = "true".toList then some true
  else if Text.lower cs = "false".toList then some false
  else none

def readZeroHolds (d : Ini.Document) (s : Settings) : Except SettingsError Settings :=
  match (d.find? "animation" "zero_duration_holds").bind readBool? with
  | none => .ok s
  | some b => .ok { s with zeroDurationHolds := b }

/-- The scale must be finite and not negative as a double; as a single it may become infinite. -/
def readTimeScale (d : Ini.Document) (s : Settings) : Except SettingsError Settings :=
  match (d.find? "animation" "time_scale").bind Number.Numeral.parse? with
  | none => .ok s
  | some n =>
    let x := n.toDouble
    if !x.isFinite || x < Number.doubleOfInt 0 then .error (.invalidTimeScale x)
    else .ok { s with timeScale := Number.narrow x }

def readTilesetDir (d : Ini.Document) (s : Settings) : Except SettingsError Settings :=
  match d.find? "assets" "tileset_dir" with
  | none => .ok s
  | some dir => .ok { s with tilesetDir := String.ofList dir }

/-- The readers of the keys in the order in which they take effect. An absent key, or a value that
does not read, changes nothing. -/
def readers : List (Ini.Document → Settings → Except SettingsError Settings) :=
  [readThreshold, readZeroHolds, readTimeScale, readTilesetDir]

/-- Runs readers up to the first that fails; what those before it set stays set. -/
def apply (d : Ini.Document) :
    List (Ini.Document → Settings → Except SettingsError Settings) → Settings →
      Option SettingsError × Settings
  | [], s => (none, s)
  | read :: readers, s =>
    match read d s with
    | .ok s => apply d readers s
    | .error e => (some e, s)

/-- The document in the settings file. -/
def document (s : Settings) (files : FileView) : Except SettingsError Ini.Document := do
  let text ← (files s.path).mapError (.unreadable s.path)
  (Ini.parse text).mapError (.malformed s.path)

/-- The settings after reading their file, with the error if it fails. -/
def load (s : Settings) (files : FileView) : Option SettingsError × Settings :=
  match s.document files with
  | .ok d => apply d readers s
  | .error e => (some e, s)

/-- The text of the settings file. -/
def render (s : Settings) : String :=
  Ini.renderSection "animation"
      [("hold_threshold_ms", toString s.holdThresholdMs.toNat),
        ("zero_duration_holds", if s.zeroDurationHolds then "true" else "false"),
        ("time_scale", Number.renderSingle s.timeScale)] ++
    Ini.renderSection "assets" [("tileset_dir", s.tilesetDir)]

def save (s : Settings) (files : FileTree) : Except SettingsError FileTree :=
  (files.write s.path s.render).mapError .unwritable

end Settings

end TileWorld
