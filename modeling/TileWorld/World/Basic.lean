import TileWorld.Clock
import TileWorld.Settings
import TileWorld.World.Entity

/-! A world: settings, store, clock and entities, and the ticks that move it on. -/
namespace TileWorld

/-- The place of an entity among all that were ever spawned. -/
abbrev EntityId := Nat

/-- An entity has parked on a hold frame. -/
structure HeldEvent where
  entity : EntityId
  tile : TileRef
deriving DecidableEq

structure World where
  settings : Settings
  store : Store
  clock : Clock
  /-- All entities by id; one that is gone leaves a gap. -/
  entities : List (Option Entity)

namespace World

/-- A world without tilesets and entities, whose clock runs at the scale of the settings. -/
def ofSettings (settings : Settings) : World :=
  ⟨settings, .empty, { scale := settings.timeScale }, []⟩

def entity? (w : World) (id : EntityId) : Option Entity :=
  w.entities[id]?.join

def insert (w : World) (e : Entity) : EntityId × World :=
  (w.entities.length, { w with entities := w.entities ++ [some e] })

/-- Changes an entity, if it is there. -/
def modify (w : World) (id : EntityId) (f : Entity → Entity) : World :=
  { w with entities := w.entities.modify id (·.map f) }

def despawn (w : World) (id : EntityId) : World :=
  { w with entities := w.entities.set id none }

/-- Publishes the tilesets of files up to the first that fails, under the settings. -/
def loadFiles (w : World) (files : FileView) (paths : List String) :
    Except Error (List String) × World :=
  let (ids, store) := w.store.loadFiles files w.settings.tilesetDir w.settings.holdPolicy paths
  (ids, { w with store })

/-- Adds an entity that starts to show a tile, and tells its id; if the tile cannot be started the
world stays as it is. -/
def add (w : World) (tileset : String) (tile : TileId) (place : Placement) :
    Except Error EntityId × World :=
  match Entity.spawn w.store tileset tile place with
  | .ok e =>
    let (id, w) := w.insert e
    (.ok id, w)
  | .error e => (.error e, w)

/-- Adds an entity that starts to show the tile of a packed map cell. -/
def addPacked (w : World) (tileset : String) (cell : UInt16) (position : Point) :
    Except Error EntityId × World :=
  let (tile, flip) := Flip.decode cell
  w.add tileset tile ⟨position, flip⟩

/-- The world with one more entity, and the id of that entity. -/
def spawn (w : World) (tileset : String) (tile : TileId) (place : Placement) :
    Except Error (EntityId × World) :=
  onSuccess (w.add tileset tile place)

def spawnPacked (w : World) (tileset : String) (cell : UInt16) (position : Point) :
    Except Error (EntityId × World) :=
  onSuccess (w.addPacked tileset cell position)

/-- One pass over all entities, for the time of the clock's last step. -/
def pass (w : World) : World × List HeldEvent :=
  let step := Entity.pass w.store w.clock.deltaMs
  let passed := w.entities.map (·.map step)
  let events := passed.mapIdx fun id e => (e.bind (·.2)).map (HeldEvent.mk id)
  ({ w with entities := passed.map (·.map (·.1)) }, events.filterMap id)

/-- A step of the clock by milliseconds, and a pass. -/
def tick (w : World) (ms : UInt32) : World × List HeldEvent :=
  { w with clock := w.clock.stepMs ms }.pass

/-- A step of the clock by seconds, and a pass. -/
def tickSeconds (w : World) (seconds : Float32) : World × List HeldEvent :=
  { w with clock := w.clock.stepSeconds seconds }.pass

end World

end TileWorld
