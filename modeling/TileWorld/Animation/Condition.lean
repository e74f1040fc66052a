import TileWorld.Animation.Signals
import TileWorld.Json.Decode
import TileWorld.Json.Parser
import TileWorld.Json.Printer

/-! Conditions over signals. A comparison with an absent signal fails, whatever the operator. -/
namespace TileWorld

inductive Comparison where
  | lt
  | le
  | gt
  | ge
  | eq
  | ne
deriving DecidableEq, Inhabited

namespace Comparison

def all : List Comparison :=
  [.lt, .le, .gt, .ge, .eq, .ne]

def name : Comparison → String
  | .lt => "Lt"
  | .le => "Le"
  | .gt => "Gt"
  | .ge => "Ge"
  | .eq => "Eq"
  | .ne => "Ne"

def ofName? (name : String) : Option Comparison :=
  all.find? (·.name = name)

def compareInt (op : Comparison) (a b : Int32) : Bool :=
  match op with
  | .lt => a < b
  | .le => a ≤ b
  | .gt => b < a
  | .ge => b ≤ a
  | .eq => a == b
  | .ne => a != b

/-- The exact comparison: a NaN is unequal to all and ordered with none. -/
def compareFloat (op : Comparison) (a b : Float32) : Bool :=
  match op with
  | .lt => a < b
  | .le => a ≤ b
  | .gt => b < a
  | .ge => b ≤ a
  | .eq => a == b
  | .ne => a != b

/-- The distance from one to the next single. -/
def epsilon : Float32 :=
  .ofBits 0x34000000

/-- A comparison of signals, where values closer than `epsilon` are equal. With a NaN or with two
equal infinities there is no distance, and both equality and inequality fail. -/
def compareScalar (op : Comparison) (a b : Float32) : Bool :=
  match op with
  | .eq => (a - b).abs < epsilon
  | .ne => epsilon ≤ (a - b).abs
  | op => op.compareFloat a b

def toJson (op : Comparison) : Json :=
  .string op.name

/-- A name, or an object with the name as its only key over a null. -/
def ofJson? : Nat → Json → Option Comparison
  | _, .string name => ofName? name
  | _ + 1, .object [(name, .null)] => ofName? name
  | _, _ => none

end Comparison

inductive Condition where
  | scalar (key : String) (op : Comparison) (value : Float32)
  | integer (key : String) (op : Comparison) (value : Int32)
  | hasFlag (key : String)
  | lacksFlag (key : String)
  | all (conditions : List Condition)
  | any (conditions : List Condition)
  | not (condition : Condition)
deriving Inhabited, BEq

namespace Condition

mutual

def holds (s : Signals) : Condition → Bool
  | .scalar key op value => (s.scalar? key).any fun x => op.compareScalar x value
  | .integer key op value => (s.integer? key).any fun x => op.compareInt x value
  | .hasFlag key => s.hasFlag key
  | .lacksFlag key => !s.hasFlag key
  | .all cs => allHold s cs
  | .any cs => anyHolds s cs
  | .not c => !holds s c

def allHold (s : Signals) : List Condition → Bool
  | [] => true
  | c :: cs => holds s c && allHold s cs

def anyHolds (s : Signals) : List Condition → Bool
  | [] => false
  | c :: cs => holds s c || anyHolds s cs

end

/-- A value under the name of its kind. -/
def tagged (kind : String) (content : Json) : Json :=
  .object [(kind, content)]

def keyed (key : String) : Json :=
  .object [("key", .string key)]

mutual

def toJson : Condition → Json
  | .scalar key op value =>
    tagged "ScalarCmp"
      (.object [("key", .string key), ("op", op.toJson), ("value", .ofSingle value)])
  | .integer key op value =>
    tagged "IntegerCmp"
      (.object [("key", .string key), ("op", op.toJson), ("value", .int value.toInt)])
  | .hasFlag key => tagged "HasFlag" (keyed key)
  | .lacksFlag key => tagged "LacksFlag" (keyed key)
  | .all cs => tagged "All" (.array (toJsons cs))
  | .any cs => tagged "Any" (.array (toJsons cs))
  | .not c => tagged "Not" (toJson c)

def toJsons : List Condition → List Json
  | [] => []
  | c :: cs => toJson c :: toJsons cs

end

theorem toJsons_eq (cs : List Condition) : toJsons cs = cs.map toJson := by
  induction cs with
  | nil => rfl
  | cons c cs ih => simp [toJsons, ih]

/-- A record that has its fields by name or, if `positional`, also in order. -/
def content? (positional : Bool) (names : List String)
    (read : Nat → List (Option Json) → Option Condition) (room : Nat) (json : Json) :
    Option Condition :=
  match json with
  | .array _ => if positional then Json.record? names read room json else none
  | _ => Json.record? names read room json

/-- The content of a comparison with a constant. -/
def comparison? {α : Type} (positional : Bool) (constant? : Json → Option α)
    (make : String → Comparison → α → Condition) : Nat → Json → Option Condition :=
  content? positional ["key", "op", "value"] fun room fields => do
    let [key, op, value] := fields | none
    some (make (← Json.required Json.string? key)
      (← Json.required (Comparison.ofJson? room) op) (← Json.required constant? value))

/-- The content of a question about a flag. -/
def flag? (positional : Bool) (make : String → Condition) : Nat → Json → Option Condition :=
  content? positional ["key"] fun _ fields => do
    let [key] := fields | none
    some (make (← Json.required Json.string? key))

/-- A condition is an object with its kind as the only key. -/
def ofJson? (positional : Bool) : Nat → Json → Option Condition
  | room + 1, .object [(kind, content)] =>
    if kind = "ScalarCmp" then comparison? positional Json.single? .scalar room content
    else if kind = "IntegerCmp" then comparison? positional Json.signedWord? .integer room content
    else if kind = "HasFlag" then flag? positional .hasFlag room content
    else if kind = "LacksFlag" then flag? positional .lacksFlag room content
    else if kind = "All" then (list? room content).map .all
    else if kind = "Any" then (list? room content).map .any
    else if kind = "Not" then (ofJson? positional room content).map .not
    else none
  | _, _ => none
where
  list? : Nat → Json → Option (List Condition)
    | room + 1, .array items => items.mapM (ofJson? positional room)
    | _, _ => none

def text (c : Condition) : String :=
  c.toJson.text

/-- The condition that a JSON text holds; all its records may have their fields in order. -/
def parse? (text : String) : Option Condition :=
  (Json.parse? text).bind (ofJson? true Json.textRoom)

end Condition

end TileWorld
