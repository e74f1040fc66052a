import TileWorld.Proofs.JsonRecords
import TileWorld.Tileset.Authored

/-! Tileset descriptions come back from their JSON form. What a writer leaves out is what a reader
fills in, at every level of tiles, objects and properties. -/
namespace TileWorld

open Json (KeepsSingles present itemsField mapSingles Restores)

variable {form : Float32 → Json}

namespace Point

def IsFinite (p : Point) : Prop :=
  p.x.isFinite = true ∧ p.y.isFinite = true

def fields (p : Point) : List (String × Option Json) :=
  [("x", some (.ofSingle p.x)), ("y", some (.ofSingle p.y))]

theorem restores (hform : KeepsSingles form) {p : Point} (hp : p.IsFinite) :
    Restores form toJson ofJson? p := by
  have hjson : p.toJson = .object (present p.fields) := rfl
  refine Restores.record ["x", "y"] hjson rfl (by decide) fun inner _ => ?_
  simp [fields, Json.single?_ofSingle hform hp.1, Json.single?_ofSingle hform hp.2]

end Point

namespace Frame

def fields (f : Frame) : List (String × Option Json) :=
  [("tileid", some (.ofWord f.tile)), ("duration", some (.ofWord f.durationMs))]

theorem restores (form : Float32 → Json) (f : Frame) : Restores form toJson ofJson? f := by
  have hjson : f.toJson = .object (present f.fields) := rfl
  refine Restores.record ["tileid", "duration"] hjson rfl (by decide) fun inner _ => ?_
  simp [fields, Json.word?_ofWord]

end Frame

namespace Authored

namespace Property

def fields (p : Property) : List (String × Option Json) :=
  [("name", some (.string p.name)), ("type", some (.string p.kind)), ("value", some p.value)]

theorem restores (form : Float32 → Json) {p : Property} (hp : p.value.IsValue) :
    Restores form toJson ofJson? p := by
  have hjson : p.toJson = .object (present p.fields) := rfl
  refine Restores.record ["name", "type", "value"] hjson rfl (by decide) fun inner hdepth => ?_
  have hvalue := hp.keep? (hdepth "value" p.value (by simp [fields]))
  simp [fields, hp.mapSingles, hvalue, mapSingles, Json.string?]

end Property

namespace Object

/-- All numbers are finite, and the properties have values that a reader may hold. -/
structure IsFinite (o : Object) : Prop where
  x : o.x.isFinite = true
  y : o.y.isFinite = true
  width : o.width.isFinite = true
  height : o.height.isFinite = true
  rotation : o.rotation.isFinite = true
  polygon : ∀ points, o.polygon = some points → ∀ p ∈ points, p.IsFinite
  properties : ∀ p ∈ o.properties, p.value.IsValue

def fields (o : Object) : List (String × Option Json) :=
  [("name", if o.name = "" then none else some (.string o.name)), ("x", some (.ofSingle o.x)),
    ("y", some (.ofSingle o.y)), ("width", some (.ofSingle o.width)),
    ("height", some (.ofSingle o.height)), ("rotation", some (.ofSingle o.rotation)),
    ("polygon", o.polygon.map fun points => .array (points.map Point.toJson)),
    ("properties", itemsField Property.toJson o.properties)]

theorem toJson_eq (o : Object) : o.toJson = .object (present o.fields) := by
  obtain ⟨name, x, y, width, height, rotation, polygon, properties⟩ := o
  by_cases hname : name = "" <;> cases polygon <;> cases properties <;>
    simp [toJson, fields, present, itemsField, optionMember, listMember, hname]

theorem restores (hform : KeepsSingles form) {o : Object} (ho : o.IsFinite) :
    Restores form toJson ofJson? o := by
  refine Restores.record ["name", "x", "y", "width", "height", "rotation", "polygon", "properties"]
    o.toJson_eq rfl (by decide) fun inner hdepth => ?_
  have hname : Json.defaulting "" Json.string?
      ((if o.name = "" then none else some (.string o.name)).map (mapSingles form)) = some o.name := by
    split
    next h => rw [h]; rfl
    next => rfl
  have hpolygon := Restores.nullable
    (fun points h p hp => Point.restores hform (ho.polygon points h p hp))
    fun points h => hdepth "polygon" _ (by simp [fields, h])
  have hproperties := Restores.defaulting
    (fun p hp => Property.restores form (ho.properties p hp))
    fun value h => hdepth "properties" value (by simp [fields, h])
  have single {x : Float32} (hx : x.isFinite = true) :=
    Json.single?_ofSingle hform hx
  simp only [fields, List.map_cons, List.map_nil, Option.map_some, Json.required_some, Json.defaulting_some,
    hname, hpolygon, hproperties, single ho.x, single ho.y, single ho.width, single ho.height,
    single ho.rotation]
  rfl

end Object

namespace Tile

structure IsFinite (t : Tile) : Prop where
  properties : ∀ p ∈ t.properties, p.value.IsValue
  objects : ∀ o ∈ t.objects, o.IsFinite

def fields (t : Tile) : List (String × Option Json) :=
  [("id", some (.ofWord t.id)), ("width", t.width.map .ofWord), ("height", t.height.map .ofWord),
    ("properties", itemsField Property.toJson t.properties),
    ("objects", itemsField Object.toJson t.objects),
    ("animation", itemsField Frame.toJson t.animation)]

theorem toJson_eq (t : Tile) : t.toJson = .object (present t.fields) := by
  -- One case for every choice of fields that are left out.
  obtain ⟨id, width, height, properties, objects, animation⟩ := t
  cases width <;> cases height <;> cases properties <;> cases objects <;> cases animation <;> rfl

theorem restores (hform : KeepsSingles form) {t : Tile} (ht : t.IsFinite) :
    Restores form toJson ofJson? t := by
  refine Restores.record ["id", "width", "height", "properties", "objects", "animation"]
    t.toJson_eq rfl (by decide) fun inner hdepth => ?_
  have hproperties := Restores.defaulting
    (fun p hp => Property.restores form (ht.properties p hp))
    fun value h => hdepth "properties" value (by simp [fields, h])
  have hobjects := Restores.defaulting
    (fun o ho => Object.restores hform (ht.objects o ho))
    fun value h => hdepth "objects" value (by simp [fields, h])
  have hanimation := Restores.defaulting
    (fun f (_ : f ∈ t.animation) => Frame.restores form f)
    fun value h => hdepth "animation" value (by simp [fields, h])
  simp only [fields, List.map_cons, List.map_nil, Option.map_some, Json.required_some, Json.word?_ofWord,
    Json.nullable?_ofWord, hproperties, hobjects, hanimation]
  rfl

end Tile

namespace Tileset

/-- Numbers are finite throughout. -/
def IsFinite (t : Tileset) : Prop :=
  ∀ tile ∈ t.tiles, tile.IsFinite

def fields (t : Tileset) : List (String × Option Json) :=
  [("name", some (.string t.name)), ("tilewidth", some (.ofWord t.tileWidth)),
    ("tileheight", some (.ofWord t.tileHeight)), ("tilecount", t.tileCount.map .ofWord),
    ("columns", t.columns.map .ofWord), ("tiles", some (.array (t.tiles.map Tile.toJson)))]

theorem toJson_eq (t : Tileset) : t.toJson = .object (present t.fields) := by
  obtain ⟨name, tileWidth, tileHeight, tileCount, columns, tiles⟩ := t
  cases tileCount <;> cases columns <;> rfl

theorem restores (hform : KeepsSingles form) {t : Tileset} (ht : t.IsFinite) :
    Restores form toJson ofJson? t := by
  refine Restores.record ["name", "tilewidth", "tileheight", "tilecount", "columns", "tiles"]
    t.toJson_eq rfl (by decide) fun inner hdepth => ?_
  have htiles := Restores.list? (fun tile htile => Tile.restores hform (ht tile htile))
    inner (hdepth "tiles" _ (by simp [fields]))
  simp only [fields, List.map_cons, List.map_nil, Option.map_some, Json.defaulting_some, Json.word?_ofWord,
    Json.nullable?_ofWord, htiles]
  rfl

/-- A description comes back from the JSON value that is written of it, in single precision or in
double, wherever there is room for the levels of that value. -/
theorem ofJson?_toJson {t : Tileset} (ht : t.IsFinite) {room : ℕ} (hroom : t.toJson.depth ≤ room) :
    ofJson? room t.toJson = some t ∧ ofJson? room t.toJson.widened = some t := by
  constructor
  · have hsingle := restores Json.keepsSingles_single ht room hroom
    rwa [Json.mapSingles_single] at hsingle
  · exact restores Json.keepsSingles_widen ht room hroom

/-- One tile with an outline of no corners, and with numbers at several depths. -/
def lantern : Tileset :=
  { name := "", tileWidth := 32, tileHeight := 38, tileCount := some 26, columns := none
    tiles :=
      [{ id := 9, width := none, height := some 0, properties := []
         objects :=
          [{ name := "", x := .ofBits 0x3dcccccd, y := .ofBits 0x80000000, width := .ofBits 1
             height := .ofBits 0x7f7fffff, rotation := .ofBits 0, polygon := some []
             properties := [⟨"glow", "steps", .object [("", .array [.null, .int (-3)])]⟩] },
           { name := "ray", x := .ofBits 0, y := .ofBits 0, width := .ofBits 0, height := .ofBits 0
             rotation := .ofBits 0xc2b40000, polygon := some [⟨.ofBits 0x3e99999a, .ofBits 0xbf800000⟩]
             properties := [] }]
         animation := [⟨10, 200⟩] }] }

theorem ofJson?_toJson_lantern :
    (lantern.IsFinite ∧ lantern.toJson.depth ≤ Json.textRoom) ∧
      ofJson? Json.textRoom lantern.toJson = some lantern ∧
      ofJson? Json.textRoom lantern.toJson.widened = some lantern := by
  have hglow : Json.IsValue (.object [("", .array [.null, .int (-3)])]) := by
    refine .object (by decide) (List.forall_mem_singleton.mpr (.array ?_))
    exact List.forall_mem_cons.mpr ⟨.null, List.forall_mem_singleton.mpr (.int _)⟩
  have hfinite : lantern.IsFinite := by
    refine List.forall_mem_singleton.mpr ⟨(fun _ h => nomatch h), List.forall_mem_cons.mpr ⟨?_, ?_⟩⟩
    · refine ⟨by decide, by decide, by decide, by decide, by decide, ?_, ?_⟩
      · rintro _ ⟨⟩ _ ⟨⟩
      · exact List.forall_mem_singleton.mpr hglow
    · refine List.forall_mem_singleton.mpr ⟨by decide, by decide, by decide, by decide, by decide, ?_, ?_⟩
      · rintro _ ⟨⟩
        exact List.forall_mem_singleton.mpr ⟨by decide, by decide⟩
      · exact fun _ h => nomatch h
  have hdepth : lantern.toJson.depth ≤ Json.textRoom := by decide
  exact ⟨⟨hfinite, hdepth⟩, ofJson?_toJson hfinite hdepth⟩

end Tileset

end Authored

end TileWorld
