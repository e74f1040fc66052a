import TileWorld.FileTree
import TileWorld.Ini
import TileWorld.Number.Shortest
import TileWorld.Tileset.Track

/-! Everything that can go wrong, as causes; the wording stands in the `message` functions alone. -/
namespace TileWorld

/-- What is wrong with an authored tileset. -/
inductive Flaw where
  | duplicateTile (tile : TileId)
  | danglingFrame (owner frame : TileId)
  | degeneratePolygon (tile : TileId) (points : Nat)
  | duplicateProperty (tile : TileId) (name : String)
  /-- A property whose value does not match its declared type. -/
  | mistypedProperty (tile : TileId) (name : String)
  /-- A tile with frames of its own and a reference to another tileset's. -/
  | conflictingAnimation (tile : TileId)
  /-- An animation reference without a path. -/
  | emptyReference (tile : TileId)
  | nonFiniteGeometry (tile : TileId)
deriving DecidableEq

def Flaw.message : Flaw → String
  | .duplicateTile tile => s!"tile id {tile.toNat} is defined more than once"
  | .danglingFrame owner frame =>
    s!"animation on tile {owner.toNat} references missing tile {frame.toNat}"
  | .degeneratePolygon tile points =>
    s!"polygon on tile {tile.toNat} has {points} points, at least 3 are required"
  | .duplicateProperty tile name =>
    s!"property '{name}' is defined more than once on tile {tile.toNat}"
  | .mistypedProperty tile name =>
    s!"property '{name}' on tile {tile.toNat} does not match its declared type"
  | .conflictingAnimation tile =>
    s!"tile {tile.toNat} has both an inline animation and an external animation reference"
  | .emptyReference tile =>
    s!"tile {tile.toNat} has an external animation reference with an empty path"
  | .nonFiniteGeometry tile => s!"tile {tile.toNat} has non-finite collision geometry"

/-- What is wrong with a settings file. -/
inductive SettingsError where
  | unreadable (path : String) (cause : FileError)
  | malformed (path : String) (cause : Ini.ParseError)
  | unwritable (cause : FileError)
  | thresholdOutOfRange (value : Nat)
  /-- A time scale that is negative or not finite. -/
  | invalidTimeScale (value : Float)
deriving DecidableEq

def SettingsError.message : SettingsError → String
  | .unreadable path cause => s!"Failed to load config file: couldn't read {path}: {cause.message}"
  | .malformed path cause => s!"Failed to load config file: couldn't read {path}: {cause.message}"
  | .unwritable cause => s!"Failed to save config file: {cause.message}"
  | .thresholdOutOfRange value => s!"hold_threshold_ms out of range: {value}"
  | .invalidTimeScale value => s!"invalid time_scale: {Number.renderDouble value}"

inductive Error where
  | malformedTileset (tileset : String) (flaw : Flaw)
  | unknownTile (tileset : String) (tile : TileId)
  | unknownTileset (tileset : String)
  | brokenReference (tileset : String) (tile : TileId) (reference : String)
  | duplicateTileset (tileset : String)
  | file (cause : FileError)
  /-- A text that is no description of a tileset. -/
  | noDescription
  | settings (cause : SettingsError)
deriving DecidableEq

def Error.message : Error → String
  | .malformedTileset tileset flaw => s!"malformed tileset '{tileset}': {flaw.message}"
  | .unknownTile tileset tile => s!"unknown tile id {tile.toNat} in tileset '{tileset}'"
  | .unknownTileset tileset => s!"unknown tileset '{tileset}'"
  | .brokenReference tileset tile reference =>
    s!"broken animation reference '{reference}' on tile {tile.toNat} of tileset '{tileset}'"
  | .duplicateTileset tileset => s!"tileset '{tileset}' is already registered"
  | .file cause => s!"I/O error: {cause.message}"
  | .noDescription => "failed to parse tileset JSON"
  | .settings cause => s!"configuration error: {cause.message}"

/-- The answer of an operation and the state after it, for a caller that does not go on after an
error. -/
def onSuccess {α σ : Type} : Except Error α × σ → Except Error (α × σ)
  | (.ok answer, state) => .ok (answer, state)
  | (.error e, _) => .error e

theorem onSuccess_eq_ok_iff {α σ : Type} (r : Except Error α × σ) (answer : α) (state : σ) :
    onSuccess r = .ok (answer, state) ↔ r = (.ok answer, state) := by
  fun_cases onSuccess r <;> simp

theorem onSuccess_eq_error_iff {α σ : Type} (r : Except Error α × σ) (e : Error) :
    onSuccess r = .error e ↔ r.1 = .error e := by
  fun_cases onSuccess r <;> simp

end TileWorld
