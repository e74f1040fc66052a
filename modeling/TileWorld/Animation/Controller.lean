import TileWorld.Animation.Condition
import TileWorld.Tileset.Track

/-! Rules that choose the tile an entity shows. -/
namespace TileWorld

structure Rule where
  condition : Condition
  tile : TileId
deriving Inhabited, BEq

namespace Rule

def toJson (r : Rule) : Json :=
  .object [("when", r.condition.toJson), ("tile", .ofWord r.tile)]

/-- A rule may have its fields in order, but the records of its condition have theirs by name. -/
def ofJson? : Nat → Json → Option Rule :=
  Json.record? ["when", "tile"] fun room fields => do
    let [condition, tile] := fields | none
    some
      { condition := ← Json.required (Condition.ofJson? false room) condition
        tile := ← Json.required Json.word? tile }

end Rule

/-- Chooses among tiles of one tileset, also while the entity shows a tile of another one that its
animation comes from. -/
structure Controller where
  tileset : String
  /-- The tile last switched to. -/
  current : TileId
  rules : List Rule
  fallback : TileId
deriving Inhabited, BEq

namespace Controller

def start (tileset : String) (fallback : TileId) (rules : List Rule) : Controller :=
  ⟨tileset, fallback, rules, fallback⟩

/-- The tile of the first rule that holds, or the fallback. -/
def selected (c : Controller) (s : Signals) : TileId :=
  match c.rules.find? (·.condition.holds s) with
  | some rule => rule.tile
  | none => c.fallback

end Controller

end TileWorld
