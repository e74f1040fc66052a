import TileWorld.Json.Decode

/-! Typed properties of tiles and shapes. -/
namespace TileWorld

inductive PropertyValue where
  | bool (value : Bool)
  | int (value : Int)
  | float (value : Float)
  | string (value : String)
  /-- A path relative to the tileset that declares it. -/
  | file (path : String)
deriving DecidableEq, Inhabited

namespace PropertyValue

/-- The value that a JSON value has under a declared type, if it matches the type. Booleans may
also be written as text, a `float` takes any number, and an `int` must fit a signed 64-bit word. -/
def ofJson? (kind : String) (value : Json) : Option PropertyValue :=
  if kind = "bool" then
    match value with
    | .bool b => some (.bool b)
    | .string s =>
      if s = "true" then some (.bool true)
      else if s = "false" then some (.bool false)
      else none
    | _ => none
  else if kind = "int" then
    match value with
    | .int n => if n ≤ 0x7FFFFFFFFFFFFFFF then some (.int n) else none
    | _ => none
  else if kind = "float" then value.double?.map .float
  else if kind = "file" then value.string?.map .file
  else if kind = "string" ∨ kind = "color" then value.string?.map .string
  else none

def bool? : PropertyValue → Option Bool
  | .bool b => some b
  | _ => none

def int? : PropertyValue → Option Int
  | .int n => some n
  | _ => none

def string? : PropertyValue → Option String
  | .string s => some s
  | _ => none

def file? : PropertyValue → Option String
  | .file path => some path
  | _ => none

end PropertyValue

/-- Properties by name, in authored order and without repeated names. -/
abbrev Properties := List (String × PropertyValue)

namespace Properties

def find? (properties : Properties) (name : String) : Option PropertyValue :=
  List.lookup name properties

def bool? (properties : Properties) (name : String) : Option Bool :=
  (properties.find? name).bind PropertyValue.bool?

/-- Whether a boolean property is there and true. -/
def flag (properties : Properties) (name : String) : Bool :=
  (properties.bool? name).getD false

end Properties

end TileWorld
