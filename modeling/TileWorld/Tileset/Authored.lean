import TileWorld.Geometry.Point
import TileWorld.Json.Decode
import TileWorld.Json.Parser
import TileWorld.Json.Printer
import TileWorld.Tileset.Property
import TileWorld.Tileset.Track

/-! Tileset descriptions as they are authored, and their JSON form. Nothing here is checked beyond
the types of the fields; only tiles with extra data need be listed. -/
namespace TileWorld

namespace Point

def toJson (p : Point) : Json :=
  .object [("x", .ofSingle p.x), ("y", .ofSingle p.y)]

def ofJson? : Nat → Json → Option Point :=
  Json.record? ["x", "y"] fun _ fields => do
    let [x, y] := fields | none
    some ⟨← Json.required Json.single? x, ← Json.required Json.single? y⟩

end Point

namespace Frame

def toJson (f : Frame) : Json :=
  .object [("tileid", .ofWord f.tile), ("duration", .ofWord f.durationMs)]

def ofJson? : Nat → Json → Option Frame :=
  Json.record? ["tileid", "duration"] fun _ fields => do
    let [tile, duration] := fields | none
    some ⟨← Json.required Json.word? tile, ← Json.required Json.word? duration⟩

end Frame

namespace Authored

structure Property where
  name : String
  kind : String
  value : Json
deriving BEq

/-- A collision object: a rectangle unless it has a polygon. -/
structure Object where
  name : String
  x : Float32
  y : Float32
  width : Float32
  height : Float32
  rotation : Float32
  polygon : Option (List Point)
  properties : List Property
deriving BEq

structure Tile where
  id : TileId
  width : Option UInt32
  height : Option UInt32
  properties : List Property
  objects : List Object
  animation : List Frame
deriving BEq

structure Tileset where
  name : String
  /-- Width of a grid cell, taken by tiles without one of their own. -/
  tileWidth : UInt32
  tileHeight : UInt32
  /-- The number of tiles, listed or not. -/
  tileCount : Option UInt32
  /-- Grid columns; zero marks a collection of images, whose ids may have gaps. -/
  columns : Option UInt32
  tiles : List Tile
deriving BEq

/-- A member of an object that is written only if the list has an item. -/
def listMember {α : Type} (name : String) (write : α → Json) : List α → List (String × Json)
  | [] => []
  | items => [(name, .array (items.map write))]

/-- A member of an object that is written only if there is a value. -/
def optionMember {α : Type} (name : String) (write : α → Json) : Option α → List (String × Json)
  | none => []
  | some value => [(name, write value)]

namespace Property

def toJson (p : Property) : Json :=
  .object [("name", .string p.name), ("type", .string p.kind), ("value", p.value)]

/-- A property without a declared type holds text. -/
def ofJson? : Nat → Json → Option Property :=
  Json.record? ["name", "type", "value"] fun room fields => do
    let [name, kind, value] := fields | none
    some
      { name := ← Json.required Json.string? name
        kind := ← Json.defaulting "string" Json.string? kind
        value := ← Json.required (Json.keep? room) value }

/-- The typed value, if the written one matches the declared type. -/
def typed? (p : Property) : Option PropertyValue :=
  PropertyValue.ofJson? p.kind p.value

end Property

namespace Object

def toJson (o : Object) : Json :=
  .object <|
    (if o.name = "" then [] else [("name", .string o.name)]) ++
      [("x", .ofSingle o.x), ("y", .ofSingle o.y), ("width", .ofSingle o.width),
        ("height", .ofSingle o.height), ("rotation", .ofSingle o.rotation)] ++
      optionMember "polygon" (fun points => .array (points.map Point.toJson)) o.polygon ++
      listMember "properties" Property.toJson o.properties

def ofJson? : Nat → Json → Option Object :=
  let number := Json.defaulting 0.0 Json.single?
  let names := ["name", "x", "y", "width", "height", "rotation", "polygon", "properties"]
  Json.record? names fun room fields => do
    let [name, x, y, width, height, rotation, polygon, properties] := fields | none
    some
      { name := ← Json.defaulting "" Json.string? name
        x := ← Json.required Json.single? x
        y := ← Json.required Json.single? y
        width := ← number width
        height := ← number height
        rotation := ← number rotation
        polygon := ← Json.defaulting none (Json.nullable? (Json.list? Point.ofJson? room)) polygon
        properties := ← Json.defaulting [] (Json.list? Property.ofJson? room) properties }

end Object

namespace Tile

def toJson (t : Tile) : Json :=
  .object <|
    [("id", .ofWord t.id)] ++ optionMember "width" .ofWord t.width ++
      optionMember "height" .ofWord t.height ++
      listMember "properties" Property.toJson t.properties ++
      listMember "objects" Object.toJson t.objects ++
      listMember "animation" Frame.toJson t.animation

def ofJson? : Nat → Json → Option Tile :=
  let names := ["id", "width", "height", "properties", "objects", "animation"]
  Json.record? names fun room fields => do
    let [id, width, height, properties, objects, animation] := fields | none
    some
      { id := ← Json.required Json.word? id
        width := ← Json.defaulting none (Json.nullable? Json.word?) width
        height := ← Json.defaulting none (Json.nullable? Json.word?) height
        properties := ← Json.defaulting [] (Json.list? Property.ofJson? room) properties
        objects := ← Json.defaulting [] (Json.list? Object.ofJson? room) objects
        animation := ← Json.defaulting [] (Json.list? Frame.ofJson? room) animation }

end Tile

namespace Tileset

/-- The number of ids from zero on that the tileset owns, listed or not. A collection of images
owns only what it lists. -/
def gridTileCount (t : Tileset) : UInt32 :=
  if t.columns = some 0 then 0 else t.tileCount.getD 0

def toJson (t : Tileset) : Json :=
  .object <|
    [("name", .string t.name), ("tilewidth", .ofWord t.tileWidth),
        ("tileheight", .ofWord t.tileHeight)] ++
      optionMember "tilecount" .ofWord t.tileCount ++ optionMember "columns" .ofWord t.columns ++
      [("tiles", .array (t.tiles.map Tile.toJson))]

def ofJson? : Nat → Json → Option Tileset :=
  let names := ["name", "tilewidth", "tileheight", "tilecount", "columns", "tiles"]
  Json.record? names fun room fields => do
    let [name, tileWidth, tileHeight, tileCount, columns, tiles] := fields | none
    some
      { name := ← Json.defaulting "" Json.string? name
        tileWidth := ← Json.defaulting 0 Json.word? tileWidth
        tileHeight := ← Json.defaulting 0 Json.word? tileHeight
        tileCount := ← Json.defaulting none (Json.nullable? Json.word?) tileCount
        columns := ← Json.defaulting none (Json.nullable? Json.word?) columns
        tiles := ← Json.defaulting [] (Json.list? Tile.ofJson? room) tiles }

def text (t : Tileset) : String :=
  t.toJson.text

/-- The description that a JSON text holds. -/
def parse? (text : String) : Option Tileset :=
  (Json.parse? text).bind (ofJson? Json.textRoom)

end Tileset

end Authored

end TileWorld
