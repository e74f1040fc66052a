import TileWorld.Json.Basic

/-! Reading typed values out of JSON. A record is an object, or an array of its fields in order;
every array or object on the way to a kept value uses up a level of `room`. -/
namespace TileWorld.Json

/-- Levels of nesting that a text may have where its values are kept. -/
def textRoom : Nat := 127

/-- The fields of a record by name, absent ones as none. Unknown members are passed over; a known
name twice, or an array with too many items, is refused. -/
def fields? (names : List String) : Json → Option (List (Option Json))
  | .object members =>
    if names.all fun name => (members.filter (·.1 = name)).length ≤ 1 then
      some (names.map fun name => List.lookup name members)
    else none
  | .array items =>
    if items.length ≤ names.length then
      some (items.map some ++ List.replicate (names.length - items.length) none)
    else none
  | _ => none

/-- A record whose fields are read with one level less. -/
def record? {α : Type} (names : List String) (read : Nat → List (Option Json) → Option α) :
    Nat → Json → Option α
  | 0, _ => none
  | room + 1, json => (json.fields? names).bind (read room)

/-- A field that must be there. -/
def required {α : Type} (read : Json → Option α) : Option Json → Option α
  | some value => read value
  | none => none

/-- A field with a value for its absence. -/
def defaulting {α : Type} (default : α) (read : Json → Option α) : Option Json → Option α
  | some value => read value
  | none => some default

/-- A value or null. -/
def nullable? {α : Type} (read : Json → Option α) : Json → Option (Option α)
  | .null => some none
  | value => (read value).map some

def bool? : Json → Option Bool
  | .bool b => some b
  | _ => none

def string? : Json → Option String
  | .string s => some s
  | _ => none

/-- An integer literal that fits an unsigned 32-bit word. -/
def word? : Json → Option UInt32
  | .int n => if 0 ≤ n ∧ n ≤ 0xFFFFFFFF then some (.ofNat n.toNat) else none
  | _ => none

/-- An integer literal that fits a signed 32-bit word. -/
def signedWord? : Json → Option Int32
  | .int n => if -0x80000000 ≤ n ∧ n ≤ 0x7FFFFFFF then some (.ofInt n) else none
  | _ => none

/-- Any number as a double. -/
def double? : Json → Option Float
  | .int n => some (Number.doubleOfInt n)
  | .float x => some x
  | .single x => some (Number.widen x)
  | _ => none

/-- Any number as a single: an integer is rounded once, another number is first a double. -/
def single? : Json → Option Float32
  | .int n => some (Number.singleOfInt n)
  | .float x => some (Number.narrow x)
  | .single x => some x
  | _ => none

/-- An array, each item read with a level less. -/
def list? {α : Type} (read : Nat → Json → Option α) : Nat → Json → Option (List α)
  | room + 1, .array items => items.mapM (read room)
  | _, _ => none

/-- Sets a member, in the place of an earlier one of that name. -/
def put (members : List (String × Json)) (name : String) (value : Json) : List (String × Json) :=
  if members.any (·.1 = name) then
    members.map fun m => if m.1 = name then (name, value) else m
  else members ++ [(name, value)]

/-- A value kept as it is: of repeated members the last stays, and all of it must be readable. -/
def keep? : Nat → Json → Option Json
  | room + 1, .array items => (items.mapM (keep? room)).map .array
  | room + 1, .object members => do
    let members ← members.mapM fun (name, value) => (keep? room value).map (name, ·)
    some (.object (members.foldl (fun kept m => put kept m.1 m.2) []))
  | 0, .array _ | 0, .object _ | _, .unreadable => none
  | _, value => some value

end TileWorld.Json
