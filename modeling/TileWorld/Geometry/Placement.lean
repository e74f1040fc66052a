import TileWorld.Geometry.WorldShape

/-! Where and how a tile stands in the world. -/
namespace TileWorld

/-- The flips of a placed tile. The diagonal one is carried along and does not act on geometry. -/
structure Flip where
  horizontal : Bool
  vertical : Bool
  diagonal : Bool
deriving DecidableEq, Inhabited

namespace Flip

def none : Flip := ⟨false, false, false⟩

def horizontalBit : UInt16 := 0x8000
def verticalBit : UInt16 := 0x4000
def diagonalBit : UInt16 := 0x2000

/-- The three flip bits; the rest of a packed cell is the tile id. -/
def mask : UInt16 :=
  horizontalBit ||| verticalBit ||| diagonalBit

/-- Tile id and flips of a packed map cell. -/
def decode (cell : UInt16) : UInt32 × Flip :=
  ((cell &&& ~~~mask).toUInt32,
    ⟨cell &&& horizontalBit ≠ 0, cell &&& verticalBit ≠ 0, cell &&& diagonalBit ≠ 0⟩)

def bits (f : Flip) : UInt16 :=
  (if f.horizontal then horizontalBit else 0) ||| (if f.vertical then verticalBit else 0) |||
    (if f.diagonal then diagonalBit else 0)

/-- The packed cell of a tile id and flips, if the id leaves the flip bits free. -/
def encode? (tile : UInt32) (f : Flip) : Option UInt16 :=
  if tile ≤ (~~~mask).toUInt32 then some (tile.toUInt16 ||| f.bits) else .none

/-- Whether the geometry is mirrored. -/
def isFlipped (f : Flip) : Bool :=
  f.horizontal || f.vertical

end Flip

/-- A position of the top-left corner, and flips. -/
structure Placement where
  position : Point
  flip : Flip
deriving DecidableEq, Inhabited

namespace Placement

/-- A point of a tile of a given size in world coordinates: mirrored about the tile's centre as the
flips say, then moved. -/
def apply (t : Placement) (size : Size) (p : Point) : Point :=
  let x := if t.flip.horizontal then size.width.toFloat32 - p.x else p.x
  let y := if t.flip.vertical then size.height.toFloat32 - p.y else p.y
  (⟨x, y⟩ : Point) + t.position

/-- A shape of a tile of a given size, the `source`-th of its list, in the world. -/
def project (t : Placement) (size : Size) (source : Nat) (s : Shape) : WorldShape :=
  { shapeClass := s.shapeClass
    interactive := s.interactive
    source
    points := s.localPoints.map (t.apply size) }

/-- All shapes of a tile in the world, in authored order. -/
def projectAll (t : Placement) (size : Size) (shapes : List Shape) : List WorldShape :=
  shapes.mapIdx (t.project size)

end Placement

end TileWorld
