import TileWorld.Number.Binary

/-! JSON values. Integers stay apart from other numbers, members keep their order, and what is well
formed but denotes no value has a constructor of its own. -/
namespace TileWorld

inductive Json where
  | null
  | bool (value : Bool)
  /-- An integer literal between `-2 ^ 63` and `2 ^ 64 - 1`, minus zero excepted. -/
  | int (value : Int)
  | float (value : Float)
  /-- A number that is written in single precision; what is read has double precision. -/
  | single (value : Float32)
  | string (value : String)
  | array (items : List Json)
  | object (members : List (String × Json))
  /-- Well-formed text without a value: a number beyond every double, or a string with an unpaired
  surrogate. It may stand where nothing is kept. -/
  | unreadable
deriving Inhabited, BEq

namespace Json

/-- A single as a number; null if it is not finite. -/
def ofSingle (x : Float32) : Json :=
  if x.isFinite then .single x else .null

def ofWord (n : UInt32) : Json :=
  .int n.toNat

/-- A member of an object; the first of several with one name. -/
def member? (name : String) : Json → Option Json
  | .object members => members.lookup name
  | _ => none

end Json

end TileWorld
