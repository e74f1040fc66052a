import TileWorld.Proofs.ListedTiles

/-! What was authored is kept. A look-up of a listed id gives the tile's size, the typed values of its
properties, and a shape for each object in its place, of the class that the flags of the object and of
the tile give. -/
namespace TileWorld

theorem Json.bool?_eq_some_iff (json : Json) (b : Bool) : json.bool? = some b ↔ json = .bool b := by
  cases json <;> simp [bool?]

namespace Authored

/-- Whether a boolean property is declared. -/
def declares (ps : List Property) (flag : String) : Bool :=
  ps.any fun p => p.name = flag ∧ p.kind = "bool"

/-- Whether a boolean property is true, which may be written as text. -/
def flagged (ps : List Property) (flag : String) : Bool :=
  ps.any fun p => p.name = flag ∧ p.kind = "bool" ∧
    (p.value.bool? = some true ∨ p.value.string? = some "true")

/-- Whether an object on a tile drops: by its own flag if it declares one, else by the tile's. -/
def Object.drops (tile : Tile) (o : Object) : Bool :=
  if declares o.properties "drop" then flagged o.properties "drop"
  else flagged tile.properties "drop"

def Object.shapeClass (tile : Tile) (o : Object) : ShapeClass :=
  if flagged o.properties "interactive" || flagged o.properties "sensor" then .sensor
  else if flagged o.properties "attack" then .attack
  else if o.drops tile then .oneWayDrop
  else .solid

/-- All that a shape takes from its object and from the tile that the object stands on. -/
structure Object.Becomes (tile : Tile) (o : Object) (s : Shape) : Prop where
  name : s.name = if o.name = "" then none else some o.name
  origin : s.origin = ⟨o.x, o.y⟩
  rotation : s.rotation = o.rotation
  outline : s.outline = match o.polygon with
    | some points => .polygon points
    | none => .rectangle o.width o.height
  interactive : s.interactive = flagged o.properties "interactive"
  shapeClass : s.shapeClass = o.shapeClass tile

end Authored

namespace Tileset
open Authored

section
variable {tile : TileId} {properties : Properties} {ps : List Property}
  (h : readProperties tile [] ps = .ok properties)
include h

theorem flag_of_readProperties (flag : String) : properties.flag flag = flagged ps flag := by
  rw [Bool.eq_iff_iff, Properties.flag, Option.getD_eq_iff]
  simp only [bool?_of_readProperties h, Property.typed?_eq_bool_iff, flagged, List.any_eq_true,
    decide_eq_true_eq, Json.bool?_eq_some_iff, Json.string?_eq_some_iff]
  simp

theorem bool?_isSome_of_readProperties (flag : String) :
    (properties.bool? flag).isSome = declares ps flag := by
  rw [Bool.eq_iff_iff, Option.isSome_iff_exists]
  simp only [bool?_of_readProperties h, declares, List.any_eq_true, decide_eq_true_eq]
  constructor
  · rintro ⟨b, p, hp, hname, htyped⟩
    exact ⟨p, hp, hname, ((Property.typed?_eq_bool_iff ..).mp htyped).1⟩
  · rintro ⟨p, hp, hname, hkind⟩
    obtain ⟨value, hvalue⟩ := readProperties_typed h p hp
    obtain ⟨b, rfl⟩ := Property.typed?_of_bool hkind hvalue
    exact ⟨b, p, hp, hname, hvalue⟩

end

theorem shapeClass_of_readProperties {tile : TileId} {owner : Authored.Tile} {o : Object}
    {properties tileProperties : Properties}
    (h : readProperties tile [] o.properties = .ok properties)
    (htile : readProperties tile [] owner.properties = .ok tileProperties) :
    ShapeClass.ofFlags (properties.flag "interactive" || properties.flag "sensor")
      (properties.flag "attack") (properties.bool? "drop") (tileProperties.flag "drop") =
        o.shapeClass owner := by
  -- The object's own flag hides the tile's, also when it is false.
  have hdrops : (properties.bool? "drop").getD (tileProperties.flag "drop") = o.drops owner := by
    rw [Object.drops, ← flag_of_readProperties h, ← flag_of_readProperties htile,
      ← bool?_isSome_of_readProperties h]
    simp only [Properties.flag]
    cases properties.bool? "drop" <;> rfl
  simp only [ShapeClass.ofFlags, Object.shapeClass, hdrops, flag_of_readProperties h]

theorem readShape_becomes {owner : Authored.Tile} {o : Object} {tileProperties : Properties}
    {shape : Shape} (htile : readProperties owner.id [] owner.properties = .ok tileProperties)
    (h : readShape owner.id (tileProperties.flag "drop") o = .ok shape) : o.Becomes owner shape := by
  obtain ⟨properties, outline, hproperties, houtline, rfl, _⟩ := (readShape_eq_ok_iff ..).mp h
  constructor
  case name => rfl
  case origin => rfl
  case rotation => rfl
  case outline =>
    rw [outline_of_readOutline houtline]
    cases o.polygon <;> rfl
  case interactive => exact flag_of_readProperties hproperties "interactive"
  case shapeClass => exact shapeClass_of_readProperties hproperties htile

/-- Each listed tile is looked up with everything that was authored for it, and nothing else. -/
theorem load_keeps_authored (id : String) (source : Authored.Tileset) (policy : HoldPolicy)
    (t : Tileset) (h : load id source policy = .ok t) (authored : Authored.Tile)
    (ha : authored ∈ source.tiles) :
    ∃ tile, t.lookup authored.id = .ok tile ∧
      tile.size.width = authored.width.getD source.tileWidth ∧
      tile.size.height = authored.height.getD source.tileHeight ∧
      (∀ p ∈ authored.properties, ∃ value,
        p.typed? = some value ∧ tile.properties.find? p.name = some value) ∧
      (∀ name, name ∉ authored.properties.map (·.name) → tile.properties.find? name = none) ∧
      List.Forall₂ (Object.Becomes authored) authored.objects tile.shapes := by
  obtain ⟨d, tile, hread, hbecomes, hl⟩ := lookup_authored h ha
  obtain ⟨properties, shapes, _, _, hp, hs, _, _, _, rfl⟩ := (readTile_eq_ok_iff ..).mp hread
  refine ⟨tile, hl, ?_, ?_, ?_, ?_, ?_⟩
  · rw [hbecomes.size]
  · rw [hbecomes.size]
  · intro p hm
    obtain ⟨value, hvalue⟩ := readProperties_typed hp p hm
    refine ⟨value, hvalue, ?_⟩
    rw [hbecomes.properties, find?_of_readProperties hp]
    exact ⟨p, hm, rfl, hvalue⟩
  · intro name hname
    rw [hbecomes.properties, Option.eq_none_iff_forall_ne_some]
    intro value hvalue
    obtain ⟨p, hm, rfl, _⟩ := (find?_of_readProperties hp ..).mp hvalue
    exact hname (List.mem_map_of_mem hm)
  · rw [hbecomes.shapes]
    exact ((mapM_eq_ok_iff ..).mp hs).imp fun _ _ => readShape_becomes hp

/-- A ledge that drops, with a step that does not and a lever that strikes: each object has its class,
and the height alone is the tile's own. -/
theorem load_keeps_authored_ledge :
    let ledge : Authored.Tile :=
      { id := 9, width := none, height := some 38
        properties := [⟨"drop", "bool", .string "true"⟩, ⟨"hp", "int", .int 3⟩]
        objects := [
          ⟨"", 0.0, 0.0, 16.0, 4.0, 0.0, none, []⟩,
          ⟨"step", 1.5, 2.0, 0.0, 0.0, 90.0, some [⟨0.0, 0.0⟩, ⟨4.0, 0.0⟩, ⟨4.0, 4.0⟩],
            [⟨"drop", "bool", .bool false⟩]⟩,
          ⟨"lever", 8.0, 8.0, 2.0, 2.0, 0.0, none,
            [⟨"attack", "bool", .bool true⟩, ⟨"interactive", "bool", .string "true"⟩]⟩]
        animation := [] }
    let source : Authored.Tileset :=
      { name := "ledge", tileWidth := 32, tileHeight := 16, tileCount := none, columns := some 0
        tiles := [ledge] }
    let tile : Tile :=
      { tileset := "ledge.json", id := 9, size := ⟨32, 38⟩
        shapes := [
          ⟨none, ⟨0.0, 0.0⟩, 0.0, .rectangle 16.0 4.0, .oneWayDrop, false⟩,
          ⟨some "step", ⟨1.5, 2.0⟩, 90.0, .polygon [⟨0.0, 0.0⟩, ⟨4.0, 0.0⟩, ⟨4.0, 4.0⟩], .solid, false⟩,
          ⟨some "lever", ⟨8.0, 8.0⟩, 0.0, .rectangle 2.0 2.0, .sensor, true⟩]
        properties := [("drop", .bool true), ("hp", .int 3)]
        animation := none }
    let t : Tileset := ⟨"ledge.json", "ledge", ⟨32, 16⟩, [tile], [], []⟩
    load "ledge.json" source {} = .ok t ∧ ledge ∈ source.tiles ∧ t.lookup 9 = .ok tile ∧
      List.Forall₂ (Object.Becomes ledge) ledge.objects tile.shapes := by
  intro ledge source tile t
  have hload : load "ledge.json" source {} = .ok t := by
    simp only [load, readTiles, source, List.mergeSort_singleton]
    decide +kernel
  have hledge : ledge ∈ source.tiles := List.mem_singleton.mpr rfl
  obtain ⟨found, hl, _, _, _, _, hshapes⟩ :=
    load_keeps_authored "ledge.json" source {} t hload ledge hledge
  have htile : t.lookup 9 = .ok tile := by decide +kernel
  obtain rfl : tile = found := Except.ok.inj (htile.symm.trans hl)
  exact ⟨hload, hledge, htile, hshapes⟩

end Tileset

end TileWorld
