import TileWorld.Path
import TileWorld.Store.Reference
import TileWorld.Tileset.Load

/-! The registry of published tilesets. A tileset is published once and never replaced, so what was
found once is found for good; references between tilesets are resolved when they are needed. -/
namespace TileWorld

/-- The tileset of a file, with the id that its path has below `root`. -/
def Tileset.ofFile (files : FileView) (root path : String) (policy : HoldPolicy) :
    Except Error Tileset := do
  let text ← (files path).mapError .file
  Tileset.parse (Path.tilesetId root path) text policy

/-- The published tilesets, in order of publication; no two share an id. -/
structure Store where
  tilesets : List Tileset
  nodup : (tilesets.map (·.id)).Nodup

namespace Store

def empty : Store :=
  ⟨[], List.nodup_nil⟩

instance : Inhabited Store := ⟨empty⟩

def find? (s : Store) (id : String) : Option Tileset :=
  s.tilesets.find? (·.id = id)

def contains (s : Store) (id : String) : Bool :=
  s.tilesets.any (·.id = id)

def size (s : Store) : Nat :=
  s.tilesets.length

/-- Publishes a tileset, unless its id is taken: then the store stays as it is. -/
def publish (s : Store) (t : Tileset) : Except Error Unit × Store :=
  if h : s.contains t.id then (.error (.duplicateTileset t.id), s)
  else (.ok (),
    { tilesets := s.tilesets ++ [t]
      nodup := by
        simp only [contains, List.any_eq_true, decide_eq_true_eq, not_exists, not_and] at h
        simp only [List.map_append, List.map_cons, List.map_nil, List.nodup_append, s.nodup,
          List.nodup_cons, List.not_mem_nil, not_false_eq_true, List.nodup_nil, and_self,
          List.mem_map, List.mem_singleton, true_and]
        rintro a ⟨u, hu, rfl⟩ b rfl
        exact h u hu })

/-- Publishes a tileset that was to be loaded, if that went well. -/
def offer (s : Store) : Except Error Tileset → Except Error Unit × Store
  | .ok t => s.publish t
  | .error e => (.error e, s)

/-- Publishes the tileset of a JSON text. -/
def publishText (s : Store) (id text : String) (policy : HoldPolicy) :
    Except Error Unit × Store :=
  s.offer (Tileset.parse id text policy)

/-- Publishes the tileset of a file, and tells its id. -/
def publishFile (s : Store) (files : FileView) (root path : String) (policy : HoldPolicy) :
    Except Error String × Store :=
  let (answer, s) := s.offer (Tileset.ofFile files root path policy)
  (answer.map fun _ => Path.tilesetId root path, s)

/-- The store with one more tileset. -/
def insert (s : Store) (t : Tileset) : Except Error Store :=
  (onSuccess (s.publish t)).map (·.2)

/-- The store with the tileset of a JSON text. -/
def loadText (s : Store) (id text : String) (policy : HoldPolicy) : Except Error Store :=
  (onSuccess (s.publishText id text policy)).map (·.2)

/-- The store with the tileset of a file, and the id of that tileset. -/
def loadFile (s : Store) (files : FileView) (root path : String) (policy : HoldPolicy) :
    Except Error (String × Store) :=
  onSuccess (s.publishFile files root path policy)

/-- Publishes files one after the other up to the first that fails: the ids or its error, and the
store as it then is. -/
def loadFiles (s : Store) (files : FileView) (root : String) (policy : HoldPolicy) :
    List String → Except Error (List String) × Store
  | [] => (.ok [], s)
  | path :: paths =>
    match s.publishFile files root path policy with
    | (.error e, s) => (.error e, s)
    | (.ok id, s) =>
      let (ids, s) := s.loadFiles files root policy paths
      (ids.map (id :: ·), s)

def tileset (s : Store) (id : String) : Except Error Tileset :=
  match s.find? id with
  | some t => .ok t
  | none => .error (.unknownTileset id)

def lookup (s : Store) (tileset : String) (tile : TileId) : Except Error Tile := do
  (← s.tileset tileset).lookup tile

def track? (s : Store) (ref : TrackRef) : Option Track :=
  (s.find? ref.tileset).bind (·.track? ref.slot)

/-- The track that a tile's reference names: the primary track of the first registered candidate. -/
def resolveReference (s : Store) (tile : Tile) : Except Error TrackRef :=
  let broken (reference : String) : Error := .brokenReference tile.tileset tile.id reference
  match tile.reference? with
  | none => .error (broken "")
  | some reference =>
    match (Reference.candidates tile.tileset reference).findSome? s.find? with
    | none => .error (broken reference)
    | some target =>
      match target.primarySlot? with
      | none => .error (broken reference)
      | some slot => .ok ⟨target.id, slot⟩

/-- The track a tile plays, if any: its own or the one it refers to. -/
def resolve (s : Store) (tile : Tile) : Except Error (Option TrackRef) :=
  match tile.animation with
  | none => .ok none
  | some (.inline slot) => .ok (some ⟨tile.tileset, slot⟩)
  | some (.external _) => (s.resolveReference tile).map some

/-- The world shapes of a tile by name. -/
def worldShapes (s : Store) (tileset : String) (tile : TileId) (place : Placement) :
    Except Error (List WorldShape) :=
  (s.lookup tileset tile).map (·.worldShapes place)

/-- The tilesets by ascending id, ids in the order of their code points. -/
def sorted (s : Store) : List Tileset :=
  s.tilesets.mergeSort fun a b => !decide (b.id < a.id)

/-- The error of every reference that does not resolve, by tileset and tile. -/
def brokenReferences (s : Store) : List Error :=
  (s.sorted.flatMap Tileset.tiles).filterMap fun tile =>
    if tile.reference?.isSome then
      match s.resolveReference tile with
      | .ok _ => none
      | .error e => some e
    else none

end Store

end TileWorld
