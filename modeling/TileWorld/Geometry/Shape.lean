import TileWorld.Geometry.Point
import TileWorld.Number.Angle

/-! Collision and interaction shapes of tiles, in coordinates of the tile. -/
namespace TileWorld

/-- How a contact with a shape counts. -/
inductive ShapeClass where
  /-- Blocks motion. -/
  | solid
  /-- Reports overlap without blocking. -/
  | sensor
  /-- Deals damage on overlap. -/
  | attack
  /-- Blocks only motion onto it from above. -/
  | oneWayDrop
deriving DecidableEq, Inhabited

namespace ShapeClass

/-- The class that authored flags give. A sensor is nothing else, an attack never drops, and the
shape's own drop flag, if it has one, overrides the tile's. -/
def ofFlags (sensor attack : Bool) (shapeDrop : Option Bool) (tileDrop : Bool) : ShapeClass :=
  if sensor then .sensor
  else if attack then .attack
  else if shapeDrop.getD tileDrop then .oneWayDrop
  else .solid

/-- Whether a contact stops motion in some direction. -/
def blocks : ShapeClass → Bool
  | .solid | .oneWayDrop => true
  | .sensor | .attack => false

def name : ShapeClass → String
  | .solid => "Solid"
  | .sensor => "Sensor"
  | .attack => "Attack"
  | .oneWayDrop => "OneWayDrop"

end ShapeClass

/-- Geometry relative to a shape's origin. -/
inductive Outline where
  | rectangle (width height : Float32)
  | polygon (points : List Point)
deriving DecidableEq, Inhabited

namespace Outline

/-- The vertices; those of a rectangle start at the origin corner and go clockwise. -/
def points : Outline → List Point
  | .rectangle w h => [.zero, ⟨w, 0.0⟩, ⟨w, h⟩, ⟨0.0, h⟩]
  | .polygon points => points

def vertexCount : Outline → Nat
  | .rectangle .. => 4
  | .polygon points => points.length

theorem length_points (o : Outline) : o.points.length = o.vertexCount := by
  cases o <;> rfl

def isFinite : Outline → Bool
  | .rectangle w h => w.isFinite && h.isFinite
  | .polygon points => points.all Point.isFinite

end Outline

/-- A shape of a tile. -/
structure Shape where
  /-- The authored name, such as `foot`. -/
  name : Option String
  origin : Point
  /-- Degrees, clockwise about the origin. -/
  rotation : Float32
  outline : Outline
  shapeClass : ShapeClass
  /-- A sensor that a player can act on. -/
  interactive : Bool
deriving DecidableEq, Inhabited

namespace Shape

/-- The vertices turned about the origin; a rotation of zero leaves them exactly as they are. -/
def turnedPoints (s : Shape) : List Point :=
  if s.rotation == 0.0 then s.outline.points
  else
    let (sin, cos) := Number.sinCos (Number.toRadians s.rotation)
    s.outline.points.map (Point.rotate sin cos)

/-- The vertices in coordinates of the tile: turned, then moved to the origin. -/
def localPoints (s : Shape) : List Point :=
  s.turnedPoints.map (· + s.origin)

theorem length_localPoints (s : Shape) : s.localPoints.length = s.outline.vertexCount := by
  simp only [localPoints, turnedPoints, List.length_map]
  split <;> simp [Outline.length_points]

def isFinite (s : Shape) : Bool :=
  s.outline.isFinite && s.origin.isFinite && s.rotation.isFinite

end Shape

end TileWorld
