import Mathlib
import TileWorld.Proofs.ListedTiles

/-! What a loaded tileset owns: the ids of its grid and those that the description lists, each with one
tile. All tiles stand in strictly ascending order, so that halving finds each of them. -/
namespace TileWorld.Tileset

/-- How a tileset answers for the ids of a description. -/
structure Indexes (t : Tileset) (source : Authored.Tileset) : Prop where
  lookup_owned : ∀ id, source.Owns id →
    ∃ tile, t.lookup id = .ok tile ∧ tile.id = id ∧ tile.tileset = t.id
  lookup_missing : ∀ id, ¬source.Owns id → t.lookup id = .error (.unknownTile t.id id)
  contains_iff : ∀ id, t.contains id = true ↔ ∃ tile, t.lookup id = .ok tile
  tile?_iff : ∀ id tile, t.tile? id = some tile ↔ t.lookup id = .ok tile
  /-- Halving finds what going through all the tiles does. -/
  tile?_eq_find? : ∀ id, t.tile? id = t.tiles.find? (·.id = id)
  tiles_ascending : (t.tiles.map (·.id)).Pairwise (· < ·)
  tiles_count : ∀ id, (t.tiles.map (·.id)).count id = if source.Owns id then 1 else 0
  mem_tiles : ∀ tile, tile ∈ t.tiles ↔ t.lookup tile.id = .ok tile
  size_eq : t.size = t.tiles.length
  size_eq_ncard : t.size = {id | source.Owns id}.ncard
  /-- An id that is not listed has nothing but the size of a cell. -/
  lookup_unlisted : ∀ id, source.Owns id → (∀ listed ∈ source.tiles, listed.id ≠ id) →
    t.lookup id = .ok ⟨t.id, id, ⟨source.tileWidth, source.tileHeight⟩, [], [], none⟩

section
variable {id : String} {source : Authored.Tileset} {policy : HoldPolicy} {t : Tileset}
  (h : load id source policy = .ok t)
include h

theorem load_contains_iff_owns (tile : TileId) : t.contains tile = true ↔ source.Owns tile := by
  rw [load_contains_iff h, owned_eq, decide_eq_true_eq]

theorem mem_ids_iff_owns (tile : TileId) : tile ∈ t.tiles.map (·.id) ↔ source.Owns tile := by
  rw [← load_contains_iff_owns h, (load_ascending h).contains_iff]

theorem load_tiles_count (tile : TileId) :
    (t.tiles.map (·.id)).count tile = if source.Owns tile then 1 else 0 := by
  rw [List.Nodup.count ((load_ascending h).imp UInt32.ne_of_lt)]
  simp only [mem_ids_iff_owns h]

theorem load_size_eq_ncard : t.size = {tile | source.Owns tile}.ncard := by
  have hids : {tile | source.Owns tile} = ((t.tiles.map (·.id)).toFinset : Set TileId) := by
    ext tile
    rw [List.coe_toFinset, Set.mem_ofPred_eq, Set.mem_ofPred_eq, mem_ids_iff_owns h]
  rw [hids, Set.ncard_coe_finset, List.toFinset_card_of_nodup ((load_ascending h).imp UInt32.ne_of_lt),
    List.length_map, size]

theorem load_lookup_unlisted {tile : TileId} (howned : source.Owns tile)
    (hunlisted : ∀ listed ∈ source.tiles, listed.id ≠ tile) :
    t.lookup tile = .ok ⟨t.id, tile, ⟨source.tileWidth, source.tileHeight⟩, [], [], none⟩ := by
  have hcontains := (load_contains_iff_owns h tile).mpr howned
  obtain ⟨found, hfound⟩ := Option.isSome_iff_exists.mp hcontains
  rw [(lookup_eq_ok_iff ..).mpr hfound, load_id h]
  obtain ⟨hm, rfl⟩ := mem_of_tile? hfound
  rcases exists_authored h hm with ⟨authored, ha, d, hread, hbecomes⟩ | ⟨_, _, rfl⟩
  · -- A listed tile was authored under its id.
    exact absurd ((hbecomes.id.trans (readTile_id hread)).symm) (hunlisted authored ha)
  · rfl

end

/-- A loaded tileset has the given id, and answers for exactly the ids that its description owns. -/
theorem load_indexes_owned_tiles (id : String) (source : Authored.Tileset) (policy : HoldPolicy)
    (t : Tileset) (h : load id source policy = .ok t) : t.id = id ∧ t.Indexes source := by
  have ht := load_ascending h
  have howns := load_contains_iff_owns h
  refine ⟨load_id h, ?_⟩
  constructor
  case lookup_owned =>
    intro tile howned
    obtain ⟨found, hfound⟩ := (contains_iff_lookup ..).mp ((howns tile).mpr howned)
    have htile := (lookup_eq_ok_iff ..).mp hfound
    exact ⟨found, hfound, (mem_of_tile? htile).2, (load_closed h).tile?_tileset htile⟩
  case lookup_missing =>
    intro tile hmissing
    have hnone : t.tile? tile = none := by
      simpa [contains] using (howns tile).not.mpr hmissing
    rw [lookup, hnone]
  case contains_iff => exact t.contains_iff_lookup
  case tile?_iff => exact fun tile found => (lookup_eq_ok_iff t tile found).symm
  case tile?_eq_find? => exact ht.tile?_eq_find?
  case tiles_ascending => exact ht
  case tiles_count => exact load_tiles_count h
  case mem_tiles => exact fun tile => (ht.mem_tiles tile).trans (lookup_eq_ok_iff ..).symm
  case size_eq => rfl
  case size_eq_ncard => exact load_size_eq_ncard h
  case lookup_unlisted => exact fun tile => load_lookup_unlisted h

/-- Two listed tiles out of order, one of them behind a grid of three cells. -/
theorem load_indexes_owned_tiles_gap :
    let source : Authored.Tileset :=
      { name := "props", tileWidth := 16, tileHeight := 24, tileCount := some 3, columns := some 3
        tiles := [⟨7, some 32, none, [], [], []⟩, ⟨1, none, none, [], [], []⟩] }
    let t : Tileset :=
      { id := "props.json", name := "props", tileSize := ⟨16, 24⟩
        tiles := [plainTile "props.json" ⟨16, 24⟩ 0, ⟨"props.json", 1, ⟨16, 24⟩, [], [], none⟩,
          plainTile "props.json" ⟨16, 24⟩ 2, ⟨"props.json", 7, ⟨32, 24⟩, [], [], none⟩]
        arena := []
        owners := [] }
    load "props.json" source {} = .ok t ∧ t.tiles.map (·.id) = [0, 1, 2, 7] ∧
      t.id = "props.json" ∧ t.Indexes source := by
  intro source t
  have hload : load "props.json" source {} = .ok t := by cbv
  exact ⟨hload, by decide +kernel, load_indexes_owned_tiles "props.json" source {} t hload⟩

end TileWorld.Tileset
