import TileWorld.Geometry.Shape

/-! Shapes in world coordinates and the questions asked of them. -/
namespace TileWorld

/-- An axis-parallel box by its corners; empty while the corners are crossed. -/
structure Bounds where
  min : Point
  max : Point
deriving DecidableEq, Inhabited

namespace Bounds

/-- The bounds of no point. -/
def empty : Bounds :=
  let inf := Number.singleOfPattern Number.Format.single.infinity
  ⟨⟨inf, inf⟩, ⟨-inf, -inf⟩⟩

/-- The lesser number; the second unless the first is less, so of equal zeros, or beside a NaN,
the second. -/
def lesser (a b : Float32) : Float32 :=
  if a < b then a else b

def greater (a b : Float32) : Float32 :=
  if b < a then a else b

/-- The bounds widened to take in a point. -/
def extend (b : Bounds) (p : Point) : Bounds :=
  ⟨⟨lesser b.min.x p.x, lesser b.min.y p.y⟩, ⟨greater b.max.x p.x, greater b.max.y p.y⟩⟩

/-- Whether the interiors meet; boxes that only touch do not overlap. -/
def overlaps (a b : Bounds) : Bool :=
  a.min.x < b.max.x && b.min.x < a.max.x && a.min.y < b.max.y && b.min.y < a.max.y

end Bounds

/-- A tile's shape projected into the world. -/
structure WorldShape where
  shapeClass : ShapeClass
  interactive : Bool
  /-- Position of the authored shape in its tile's list. -/
  source : Nat
  points : List Point
deriving DecidableEq, Inhabited

namespace WorldShape

def bounds (s : WorldShape) : Bounds :=
  s.points.foldl Bounds.extend Bounds.empty

def overlapsBounds (s t : WorldShape) : Bool :=
  s.bounds.overlaps t.bounds

/-- Whether an edge passes the height of a point, one end above and one not. -/
def straddles (p : Point) (edge : Point × Point) : Bool :=
  decide (p.y < edge.1.y) != decide (p.y < edge.2.y)

/-- Where an edge crosses the height of a point. -/
def crossing (p : Point) (edge : Point × Point) : Float32 :=
  let (a, b) := edge
  a.x + (p.y - a.y) * (b.x - a.x) / (b.y - a.y)

/-- Whether an edge crosses the ray from a point towards greater `x`. -/
def crosses (p : Point) (edge : Point × Point) : Bool :=
  straddles p edge && p.x < crossing p edge

/-- One step around the closed outline. The edge to vertex `i` starts at the trailing vertex `j`, and
turns the answer if it crosses the ray. -/
def turn (points : List Point) (p : Point) (state : Nat × Bool) (i : Nat) : Nat × Bool :=
  let (j, inside) := state
  (i, if crosses p (points[i]!, points[j]!) then !inside else inside)

/-- The even-odd rule. The walk starts with the edge that closes the outline; fewer than three
vertices enclose nothing. -/
def contains (s : WorldShape) (p : Point) : Bool :=
  let n := s.points.length
  if n < 3 then false
  else ((List.range n).foldl (turn s.points p) (n - 1, false)).2

end WorldShape

end TileWorld
