import TileWorld.Error
import TileWorld.Geometry.Placement
import TileWorld.Tileset.Property

/-! Loaded tilesets: all their tiles by ascending id, in which one is found by halving, and the tracks
that the animated ones share with other tilesets. -/
namespace TileWorld

/-- Where a tile's animation comes from. -/
inductive Animation where
  /-- A track of the same tileset, by its place there. -/
  | inline (slot : Nat)
  /-- A reference to a tileset whose primary track the tile plays. -/
  | external (path : String)
deriving DecidableEq

structure Tile where
  tileset : String
  id : TileId
  size : Size
  shapes : List Shape
  properties : Properties
  animation : Option Animation
deriving DecidableEq

namespace Tile

/-- Whether the tile takes part in collisions; `collide=false` takes it out. -/
def collides (t : Tile) : Bool :=
  t.properties.bool? "collide" ≠ some false

def isStatic (t : Tile) : Bool :=
  t.animation.isNone

def inlineSlot? (t : Tile) : Option Nat :=
  match t.animation with
  | some (.inline slot) => some slot
  | _ => none

def reference? (t : Tile) : Option String :=
  match t.animation with
  | some (.external path) => some path
  | _ => none

/-- The first shape of a name. -/
def shape? (t : Tile) (name : String) : Option Shape :=
  t.shapes.find? (·.name = some name)

/-- The tile's shapes in the world, whether it collides or not. -/
def worldShapes (t : Tile) (place : Placement) : List WorldShape :=
  place.projectAll t.size t.shapes

end Tile

structure Tileset where
  id : String
  name : String
  /-- The size of a grid cell. -/
  tileSize : Size
  /-- Every owned tile, by ascending id. -/
  tiles : List Tile
  /-- The tracks, in the order of their owners. -/
  arena : List Track
  /-- The tiles that authored the tracks, by ascending id. -/
  owners : List TileId
deriving DecidableEq

namespace Tileset

/-- A cell of a grid that has nothing but its size. -/
def plainTile (tileset : String) (cell : Size) (id : TileId) : Tile :=
  ⟨tileset, id, cell, [], [], none⟩

/-- The tile of an id among tiles by ascending id, found by halving what is left of them, at most
`steps` times. -/
def bisect? (id : TileId) : Nat → List Tile → Option Tile
  | 0, _ => none
  | steps + 1, tiles =>
    match tiles[tiles.length / 2]? with
    | none => none
    | some middle =>
      if middle.id = id then some middle
      else if id < middle.id then bisect? id steps (tiles.take (tiles.length / 2))
      else bisect? id steps (tiles.drop (tiles.length / 2 + 1))

def tile? (t : Tileset) (id : TileId) : Option Tile :=
  bisect? id t.tiles.length t.tiles

def lookup (t : Tileset) (id : TileId) : Except Error Tile :=
  match t.tile? id with
  | some tile => .ok tile
  | none => .error (.unknownTile t.id id)

def contains (t : Tileset) (id : TileId) : Bool :=
  (t.tile? id).isSome

/-- The number of owned tiles. -/
def size (t : Tileset) : Nat :=
  t.tiles.length

def track? (t : Tileset) (slot : Nat) : Option Track :=
  t.arena[slot]?

/-- The tile that authored a track. -/
def owner? (t : Tileset) (slot : Nat) : Option TileId :=
  t.owners[slot]?

/-- The tracks with their owners. -/
def tracks (t : Tileset) : List (TileId × Track) :=
  t.owners.zip t.arena

/-- The track that tiles of other tilesets play: that of the least animated id. -/
def primarySlot? (t : Tileset) : Option Nat :=
  if t.arena.isEmpty then none else some 0

end Tileset

end TileWorld
