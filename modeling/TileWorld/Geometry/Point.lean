/-! Points of the plane, with `y` pointing down. -/
namespace TileWorld

structure Point where
  x : Float32
  y : Float32
deriving DecidableEq, Inhabited

namespace Point

def zero : Point := ⟨0.0, 0.0⟩

def isFinite (p : Point) : Bool :=
  p.x.isFinite && p.y.isFinite

instance : Add Point where
  add p q := ⟨p.x + q.x, p.y + q.y⟩

/-- The point turned about the zero point, for the sine and cosine of the angle. -/
def rotate (sin cos : Float32) (p : Point) : Point :=
  ⟨p.x * cos - p.y * sin, p.x * sin + p.y * cos⟩

end Point

/-- Width and height in whole pixels. -/
structure Size where
  width : UInt32
  height : UInt32
deriving DecidableEq, Inhabited

end TileWorld
