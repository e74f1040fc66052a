import TileWorld.Animation.Controller
import TileWorld.Animation.Cursor
import TileWorld.Store.Basic

/-! Entities: optional components, and the three systems of a pass on one entity. -/
namespace TileWorld

/-- A tile by name. -/
structure TileRef where
  tileset : String
  tile : TileId
deriving DecidableEq, Inhabited

/-- A component with a mark that it was written since the last pass. It is marked when it is put in
place, and by an update that changes its value. -/
structure Marked (α : Type) where
  value : α
  written : Bool
deriving DecidableEq, Inhabited

namespace Marked

variable {α : Type}

/-- A component just put in place, which counts as written whatever was there. -/
def fresh (value : α) : Marked α :=
  ⟨value, true⟩

/-- Writes a value only if it differs. -/
def update [DecidableEq α] (m : Marked α) (value : α) : Marked α :=
  if m.value = value then m else fresh value

def settle (m : Marked α) : Marked α :=
  { m with written := false }

end Marked

structure Entity where
  tile : Option (Marked TileRef) := none
  position : Option (Marked Point) := none
  flip : Option (Marked Flip) := none
  cursor : Option Cursor := none
  controller : Option Controller := none
  signals : Option Signals := none
  shapes : Option (List WorldShape) := none
deriving Inhabited

/-- The flag that is set on the signals of an entity parked on a hold frame. -/
def heldFlag : String := "animation_held"

namespace Store

/-- What is shown of a tile before any time has passed: the first frame of its track, if it has one.
-/
def firstShown (s : Store) (tile : Tile) : Option TrackRef → TileRef
  | some track => ⟨track.tileset, ((s.track? track).map Track.firstTile).getD tile.id⟩
  | none => ⟨tile.tileset, tile.id⟩

/-- The shapes of a tile that stands somewhere: none if it is unknown or does not collide. -/
def shapesAt (s : Store) (tile : TileRef) (place : Placement) : List WorldShape :=
  match s.lookup tile.tileset tile.tile with
  | .ok tile => if tile.collides then tile.worldShapes place else []
  | .error _ => []

end Store

namespace Entity

/-- An entity that starts to show a tile. -/
def spawn (s : Store) (tileset : String) (tile : TileId) (place : Placement) :
    Except Error Entity := do
  let source ← s.lookup tileset tile
  let track ← s.resolve source
  return { tile := some (.fresh (s.firstShown source track))
           position := some (.fresh place.position)
           flip := some (.fresh place.flip)
           shapes := some []
           cursor := track.map .start }

/-- The cursor after a switch to a tile, by what there was before and the track of the tile: one that
is there moves over, a missing one is made, and a tile without a track takes it away. -/
def redirect : Option Cursor → Option TrackRef → Option Cursor
  | some cursor, some track => some (cursor.switchTrack track)
  | none, some track => some (.start track)
  | _, none => none

/-- Lets the controller switch to the tile it selects, if that tile is there and its animation
resolves; the held flag falls. -/
def select (s : Store) (e : Entity) : Entity :=
  match e.controller, e.tile, e.signals with
  | some controller, some tile, some signals =>
    let selected := controller.selected signals
    if selected = controller.current then e
    else
      match s.lookup controller.tileset selected with
      | .error _ => e
      | .ok source =>
        match s.resolve source with
        | .error _ => e
        | .ok track =>
          { e with
            controller := some { controller with current := selected }
            signals := some (signals.clearFlag heldFlag)
            tile := some (tile.update (s.firstShown source track))
            cursor := redirect e.cursor track }
  | _, _, _ => e

/-- Plays the cursor's track for some time and shows the tile reached. The first pass that ends on a
hold frame sets the held flag and announces the tile. A cursor on a missing track stands still. -/
def play (s : Store) (deltaMs : UInt32) (e : Entity) : Entity × Option TileRef :=
  match e.cursor, e.tile with
  | some cursor, some tile =>
    match s.track? cursor.track with
    | none => (e, none)
    | some track =>
      let cursor := cursor.advance track deltaMs
      let shown : TileRef := ⟨cursor.track.tileset, (cursor.tile? track).getD 0⟩
      let e := { e with tile := some (tile.update shown) }
      if !cursor.isHolding track then
        ({ e with cursor := some { cursor with heldNotified := false } }, none)
      else if cursor.heldNotified then ({ e with cursor := some cursor }, none)
      else
        ({ e with
           cursor := some { cursor with heldNotified := true }
           signals := e.signals.map (·.setFlag heldFlag) },
          some shown)
  | _, _ => (e, none)

/-- Where the entity stands. -/
def place? (e : Entity) : Option Placement :=
  e.position.map fun position => ⟨position.value, (e.flip.map (·.value)).getD .none⟩

/-- Whether tile, position or flip was written since the last pass. -/
def moved (e : Entity) : Bool :=
  e.tile.any (·.written) || e.position.any (·.written) || e.flip.any (·.written)

/-- The shapes that the entity would have if they were made anew now. -/
def currentShapes? (s : Store) (e : Entity) : Option (List WorldShape) :=
  match e.tile, e.place? with
  | some tile, some place => some (s.shapesAt tile.value place)
  | _, _ => none

/-- Makes the shapes of a moved entity anew. -/
def refresh (s : Store) (e : Entity) : Entity :=
  if e.moved then
    match e.shapes, e.currentShapes? s with
    | some _, some shapes => { e with shapes := some shapes }
    | _, _ => e
  else e

/-- Takes the marks off, whether or not they had any effect. -/
def settle (e : Entity) : Entity :=
  { e with
    tile := e.tile.map Marked.settle
    position := e.position.map Marked.settle
    flip := e.flip.map Marked.settle }

/-- One pass: the controller, then playback, then the shapes; with the tile announced as held. -/
def pass (s : Store) (deltaMs : UInt32) (e : Entity) : Entity × Option TileRef :=
  let (e, held) := (e.select s).play s deltaMs
  ((e.refresh s).settle, held)

end Entity

end TileWorld
