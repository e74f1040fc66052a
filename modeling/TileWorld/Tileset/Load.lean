import TileWorld.Tileset.Authored
import TileWorld.Tileset.Basic

/-! From an authored description to a loaded tileset, or to its first flaw: a repeated id first,
then tile by tile in ascending order, each checked in the order of its parts. -/
namespace TileWorld.Tileset

/-- The first item that equals an earlier one or one of those seen before. -/
def firstRepeated? (seen : List TileId) : List TileId → Option TileId
  | [] => none
  | id :: ids => if id ∈ seen then some id else firstRepeated? (id :: seen) ids

/-- The typed properties of a tile or shape, after those already read. -/
def readProperties (tile : TileId) (read : Properties) :
    List Authored.Property → Except Flaw Properties
  | [] => .ok read
  | p :: ps =>
    match p.typed? with
    | none => .error (.mistypedProperty tile p.name)
    | some value =>
      if (read.find? p.name).isSome then .error (.duplicateProperty tile p.name)
      else readProperties tile (read ++ [(p.name, value)]) ps

/-- The outline of an object; a polygon needs three points. -/
def readOutline (tile : TileId) (o : Authored.Object) : Except Flaw Outline :=
  match o.polygon with
  | some points =>
    if points.length < 3 then .error (.degeneratePolygon tile points.length)
    else .ok (.polygon points)
  | none => .ok (.rectangle o.width o.height)

/-- The shape of an object on a tile with or without the drop flag. What can be acted on is a
sensor. -/
def readShape (tile : TileId) (tileDrop : Bool) (o : Authored.Object) : Except Flaw Shape := do
  let properties ← readProperties tile [] o.properties
  let outline ← readOutline tile o
  let interactive := properties.flag "interactive"
  let sensor := interactive || properties.flag "sensor"
  let shape : Shape :=
    { name := if o.name = "" then none else some o.name
      origin := ⟨o.x, o.y⟩
      rotation := o.rotation
      outline
      shapeClass :=
        .ofFlags sensor (properties.flag "attack") (properties.bool? "drop") tileDrop
      interactive }
  if shape.isFinite then .ok shape else .error (.nonFiniteGeometry tile)

/-- The property that refers to another tileset's animation. -/
def referenceProperty : String := "anim"

/-- The reference of a tile, if its property for it is a path. -/
def readReference (tile : TileId) (properties : Properties) : Except Flaw (Option String) :=
  match (properties.find? referenceProperty).bind PropertyValue.file? with
  | some "" => .error (.emptyReference tile)
  | reference => .ok reference

/-- A checked tile whose track has no place yet. -/
structure Draft where
  id : TileId
  size : Size
  shapes : List Shape
  properties : Properties
  reference : Option String
  track : Option Track

/-- The track of a tile's own frames, all of which must be owned tiles. -/
def readTrack (owned : TileId → Bool) (policy : HoldPolicy) (t : Authored.Tile) :
    Except Flaw (Option Track) :=
  match t.animation.find? fun f => !owned f.tile with
  | some f => .error (.danglingFrame t.id f.tile)
  | none => .ok (Track.ofFrames? policy t.animation)

def readTile (owned : TileId → Bool) (policy : HoldPolicy) (cell : Size) (t : Authored.Tile) :
    Except Flaw Draft := do
  let properties ← readProperties t.id [] t.properties
  let shapes ← t.objects.mapM (readShape t.id (properties.flag "drop"))
  let reference ← readReference t.id properties
  let track ← readTrack owned policy t
  if track.isSome && reference.isSome then throw (.conflictingAnimation t.id)
  return { id := t.id
           size := ⟨t.width.getD cell.width, t.height.getD cell.height⟩
           shapes, properties, reference, track }

/-- The drafts as tiles, with their tracks in the same order and the owners of these; the first track
goes to `slot`. -/
def assemble (tileset : String) : Nat → List Draft → List Tile × List Track × List TileId
  | _, [] => ([], [], [])
  | slot, d :: drafts =>
    let tile (animation : Option Animation) : Tile :=
      ⟨tileset, d.id, d.size, d.shapes, d.properties, animation⟩
    match d.track with
    | some track =>
      let (tiles, arena, owners) := assemble tileset (slot + 1) drafts
      (tile (some (.inline slot)) :: tiles, track :: arena, d.id :: owners)
    | none =>
      let (tiles, arena, owners) := assemble tileset slot drafts
      (tile (d.reference.map .external) :: tiles, arena, owners)

/-- Whether a description owns an id. -/
def owned (source : Authored.Tileset) (id : TileId) : Bool :=
  id < source.gridTileCount || source.tiles.any (·.id = id)

/-- The checked tiles of a description, by ascending id. -/
def readTiles (policy : HoldPolicy) (source : Authored.Tileset) : Except Flaw (List Draft) :=
  match firstRepeated? [] (source.tiles.map (·.id)) with
  | some id => .error (.duplicateTile id)
  | none =>
    (source.tiles.mergeSort (·.id ≤ ·.id)).mapM
      (readTile (owned source) policy ⟨source.tileWidth, source.tileHeight⟩)

/-- The ids of the grid that are not listed. -/
def unlistedIds (source : Authored.Tileset) : List TileId :=
  ((List.range source.gridTileCount.toNat).map .ofNat).filter fun id =>
    !source.tiles.any (·.id = id)

/-- The tileset of a description. The unlisted cells of the grid join the listed tiles, and all are
sorted again. -/
def load (id : String) (source : Authored.Tileset) (policy : HoldPolicy) : Except Error Tileset :=
  match readTiles policy source with
  | .error flaw => .error (.malformedTileset id flaw)
  | .ok drafts =>
    let cell : Size := ⟨source.tileWidth, source.tileHeight⟩
    let (listed, arena, owners) := assemble id 0 drafts
    let unlisted := (unlistedIds source).map (plainTile id cell)
    .ok { id
          name := source.name
          tileSize := cell
          tiles := (listed ++ unlisted).mergeSort (·.id ≤ ·.id)
          arena, owners }

/-- The tileset of a JSON text. -/
def parse (id text : String) (policy : HoldPolicy) : Except Error Tileset :=
  match Authored.Tileset.parse? text with
  | some source => load id source policy
  | none => .error .noDescription

end TileWorld.Tileset
