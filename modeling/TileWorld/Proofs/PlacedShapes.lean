import TileWorld.Tileset.Basic

/-! The shapes of a placed tile, vertex by vertex. A vertex is turned and moved to its shape's
origin before the flips come in, and so a flip never meets a rotation: each axis of the world has
one coordinate of the tile, one flip and one coordinate of the position. -/
namespace TileWorld

namespace Shape

/-- Where a vertex of the outline lies in the tile. -/
def locate (s : Shape) (vertex : Point) : Point :=
  (if s.rotation == 0.0 then vertex
    else
      let (sin, cos) := Number.sinCos (Number.toRadians s.rotation)
      vertex.rotate sin cos) + s.origin

theorem localPoints_eq_map (s : Shape) : s.localPoints = s.outline.points.map s.locate := by
  unfold localPoints turnedPoints locate
  split
  · rfl
  · simp only [List.map_map, Function.comp_def]

/-- Shapes that differ in nothing but name, class and interactivity. -/
structure SameGeometry (s s' : Shape) : Prop where
  origin : s.origin = s'.origin
  rotation : s.rotation = s'.rotation
  outline : s.outline = s'.outline

theorem SameGeometry.localPoints_eq {s s' : Shape} (h : s.SameGeometry s') :
    s.localPoints = s'.localPoints := by
  simp only [localPoints, turnedPoints, h.origin, h.rotation, h.outline]

end Shape

namespace WorldShape

/-- What the points have along one axis. -/
def coordinates (axis : Point → Float32) (w : WorldShape) : List Float32 :=
  w.points.map axis

/-- What makes a world shape the `i`-th authored shape `s` of a tile, where `place` takes the points
of the tile into the world. -/
structure Mirrors (w : WorldShape) (i : Nat) (s : Shape) (place : Point → Point) : Prop where
  shapeClass : w.shapeClass = s.shapeClass
  interactive : w.interactive = s.interactive
  source : w.source = i
  count : w.points.length = s.outline.vertexCount
  vertices : ∀ (k : Nat) (v : Point), s.outline.points[k]? = some v →
    w.points[k]? = some (place (s.locate v))

end WorldShape

namespace Placement

/-- A coordinate of the world, from the same coordinate of a tile and the tile's extent there. -/
def alongAxis (flipped : Bool) (extent : UInt32) (offset c : Float32) : Float32 :=
  (if flipped then extent.toFloat32 - c else c) + offset

theorem apply_x (t : Placement) (size : Size) (p : Point) :
    (t.apply size p).x = alongAxis t.flip.horizontal size.width t.position.x p.x := rfl

theorem apply_y (t : Placement) (size : Size) (p : Point) :
    (t.apply size p).y = alongAxis t.flip.vertical size.height t.position.y p.y := rfl

theorem project_mirrors (t : Placement) (size : Size) (i : Nat) (s : Shape) :
    (t.project size i s).Mirrors i s (t.apply size) where
  shapeClass := rfl
  interactive := rfl
  source := rfl
  count := by simp only [project, List.length_map, Shape.length_localPoints]
  vertices k v hv := by
    simp only [project, Shape.localPoints_eq_map, List.getElem?_map, hv, Option.map_some]

end Placement

namespace Tile

variable {tile : Tile} {t u : Placement}

theorem getElem?_worldShapes {i : Nat} {s : Shape} (t : Placement) (hs : tile.shapes[i]? = some s) :
    (tile.worldShapes t)[i]? = some (t.project tile.size i s) := by
  rw [worldShapes, Placement.projectAll, List.getElem?_mapIdx, hs, Option.map_some]

/-- Along an axis, placements agree on the shapes if they do on every point by itself. -/
theorem coordinates_worldShapes {axis : Point → Float32}
    (h : ∀ p, axis (t.apply tile.size p) = axis (u.apply tile.size p)) :
    (tile.worldShapes t).map (·.coordinates axis) =
      (tile.worldShapes u).map (·.coordinates axis) := by
  have hproject (i : Nat) (s : Shape) : (t.project tile.size i s).coordinates axis =
      (u.project tile.size i s).coordinates axis := by
    simp only [WorldShape.coordinates, Placement.project, List.map_map, Function.comp_def, h]
  apply List.ext_getElem?
  intro i
  simp only [worldShapes, Placement.projectAll, List.getElem?_map, List.getElem?_mapIdx,
    Option.map_map, Function.comp_def, hproject]

/-- The world shapes of a tile mirror its authored shapes one by one. What lies along an axis
depends on the position and the flip of that axis alone, and the points of a shape on nothing but
its geometry, the tile's size and the placement. -/
theorem worldShapes_mirror_authored :
    (∀ (tile : Tile) (t : Placement),
      (tile.worldShapes t).length = tile.shapes.length ∧
        ∀ (i : Nat) (s : Shape), tile.shapes[i]? = some s →
          ∃ w : WorldShape, (tile.worldShapes t)[i]? = some w ∧
            w.Mirrors i s (t.apply tile.size)) ∧
      (∀ (tile : Tile) (t u : Placement),
        (t.position.x = u.position.x → t.flip.horizontal = u.flip.horizontal →
          (tile.worldShapes t).map (·.coordinates Point.x) =
            (tile.worldShapes u).map (·.coordinates Point.x)) ∧
        (t.position.y = u.position.y → t.flip.vertical = u.flip.vertical →
          (tile.worldShapes t).map (·.coordinates Point.y) =
            (tile.worldShapes u).map (·.coordinates Point.y))) ∧
      ∀ (tile tile' : Tile) (t : Placement) (i j : Nat) (s s' : Shape), tile.size = tile'.size →
        tile.shapes[i]? = some s → tile'.shapes[j]? = some s' → s.SameGeometry s' →
          ∃ w w', (tile.worldShapes t)[i]? = some w ∧ (tile'.worldShapes t)[j]? = some w' ∧
            w.points = w'.points := by
  refine ⟨fun tile t => ⟨?_, fun i s hs => ?_⟩, fun tile t u => ⟨?_, ?_⟩, ?_⟩
  · exact List.length_mapIdx
  · exact ⟨_, getElem?_worldShapes t hs, t.project_mirrors tile.size i s⟩
  · intro hx hflip
    exact coordinates_worldShapes fun p => by
      rw [Placement.apply_x, Placement.apply_x, hx, hflip]
  · intro hy hflip
    exact coordinates_worldShapes fun p => by
      rw [Placement.apply_y, Placement.apply_y, hy, hflip]
  · intro tile tile' t i j s s' hsize hs hs' hsame
    refine ⟨_, _, getElem?_worldShapes t hs, getElem?_worldShapes t hs', ?_⟩
    simp only [Placement.project, hsame.localPoints_eq, hsize]

/-- A beam that stands on its end, and a sensor that covers it. -/
def beam : Tile where
  tileset := "cave.json"
  id := 3
  size := ⟨32, 32⟩
  shapes :=
    [⟨none, ⟨20, 0⟩, 90, .rectangle 32 8, .solid, false⟩,
      ⟨some "grip", ⟨20, 0⟩, 90, .rectangle 32 8, .sensor, true⟩]
  properties := []
  animation := none

def onFloor : Placement := ⟨⟨64, 32⟩, ⟨true, false, false⟩⟩

/-- Above `onFloor`, upside down. -/
def onCeiling : Placement := ⟨⟨64, 0⟩, ⟨true, true, true⟩⟩

/-- Beside `onFloor`, the other way round. -/
def atDoor : Placement := ⟨⟨0, 32⟩, ⟨false, false, true⟩⟩

theorem worldShapes_mirror_authored_beam :
    (∃ w : WorldShape, (beam.worldShapes onCeiling)[1]? = some w ∧ w.source = 1 ∧
      w.points[3]? = some ⟨84, 32⟩) ∧
      (beam.worldShapes onFloor).map (·.coordinates Point.x) =
        (beam.worldShapes onCeiling).map (·.coordinates Point.x) ∧
      (beam.worldShapes onFloor).map (·.coordinates Point.y) =
        (beam.worldShapes atDoor).map (·.coordinates Point.y) ∧
      ∃ w w', (beam.worldShapes atDoor)[0]? = some w ∧ (beam.worldShapes atDoor)[1]? = some w' ∧
        w.points = w'.points := by
  obtain ⟨mirror, axes, alike⟩ := worldShapes_mirror_authored
  refine ⟨?_, (axes beam onFloor onCeiling).1 rfl rfl, (axes beam onFloor atDoor).2 rfl rfl,
    alike beam beam atDoor 0 1 _ _ rfl rfl rfl ⟨rfl, rfl, rfl⟩⟩
  obtain ⟨w, hw, hmirror⟩ := (mirror beam onCeiling).2 1 _ rfl
  refine ⟨w, hw, hmirror.source, (hmirror.vertices 3 _ rfl).trans ?_⟩
  decide +kernel

end Tile

end TileWorld
