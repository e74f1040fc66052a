import Mathlib
import TileWorld.Proofs.ListedTiles

/-! The order in which a description lists its tiles does not count. Tiles are sorted before the first
of them is read, and the slots of tracks are given out along the sorted tiles; only which of several
repeated ids is reported depends on the order of the file. -/
namespace TileWorld.Tileset

/-- The id reported as repeated stands twice. -/
theorem duplicate_of_firstRepeated? {seen ids : List TileId} {id : TileId}
    (h : firstRepeated? seen ids = some id) : (seen ++ ids).Duplicate id := by
  induction ids generalizing seen with
  | nil => cases h
  | cons first ids ih =>
    rw [firstRepeated?] at h
    split at h
    next hseen =>
      have hcount : 0 < seen.count first := List.count_pos_iff.mpr hseen
      rw [← Option.some.inj h]
      apply List.duplicate_iff_two_le_count.mpr
      rw [List.count_append, List.count_cons_self]
      omega
    next =>
      -- The first id has gone over to those seen, which only moves it to the front.
      have hmoved : (seen ++ first :: ids).Perm (first :: seen ++ ids) := List.perm_middle
      apply List.duplicate_iff_two_le_count.mpr
      rw [hmoved.count_eq]
      exact List.duplicate_iff_two_le_count.mp (ih h)

theorem firstRepeated?_eq_none_iff (ids : List TileId) :
    firstRepeated? [] ids = none ↔ ids.Nodup := by
  have hhead := firstRepeated?_eq_head? [] [] ids (by simp)
  rw [← Authored.Tileset.findings_repeatedId?_eq_nil_iff, ← List.head?_eq_none_iff, ← hhead,
    Option.map_eq_none_iff]

theorem mergeSort_eq_of_perm {tiles tiles' : List Authored.Tile}
    (hn : (tiles.map (·.id)).Nodup) (hp : tiles.Perm tiles') :
    tiles.mergeSort (·.id ≤ ·.id) = tiles'.mergeSort (·.id ≤ ·.id) := by
  have hn' : (tiles'.map (·.id)).Nodup := (hp.map (·.id)).nodup_iff.mp hn
  have hsorted : (tiles.mergeSort (·.id ≤ ·.id)).Perm (tiles'.mergeSort (·.id ≤ ·.id)) :=
    (List.mergeSort_perm ..).trans (hp.trans (List.mergeSort_perm ..).symm)
  refine List.Perm.eq_of_pairwise ?_ (List.pairwise_map.mp (mergeSort_ascending hn))
    (List.pairwise_map.mp (mergeSort_ascending hn')) hsorted
  -- Distinct ids ascend strictly, so no two places can be exchanged.
  intro a b _ _ hab hba
  exact absurd hba (UInt32.lt_asymm hab)

theorem owned_eq_of_perm {source : Authored.Tileset} {tiles : List Authored.Tile}
    (hp : source.tiles.Perm tiles) : owned { source with tiles } = owned source := by
  funext id
  have hany : tiles.any (·.id = id) = source.tiles.any (·.id = id) := hp.symm.any_eq
  rw [owned, hany]
  rfl

theorem unlistedIds_eq_of_perm {source : Authored.Tileset} {tiles : List Authored.Tile}
    (hp : source.tiles.Perm tiles) : unlistedIds { source with tiles } = unlistedIds source := by
  refine List.filter_congr fun id _ => ?_
  have hany : tiles.any (·.id = id) = source.tiles.any (·.id = id) := hp.symm.any_eq
  rw [hany]

theorem readTiles_of_nodup {source : Authored.Tileset} (hn : (source.tiles.map (·.id)).Nodup)
    (policy : HoldPolicy) :
    readTiles policy source = (source.tiles.mergeSort (·.id ≤ ·.id)).mapM
      (readTile (owned source) policy ⟨source.tileWidth, source.tileHeight⟩) := by
  rw [readTiles, (firstRepeated?_eq_none_iff _).mpr hn]

/-- A description that repeats ids is refused with one of them. -/
theorem load_of_not_nodup {source : Authored.Tileset}
    (hn : ¬ (source.tiles.map (·.id)).Nodup) (id : String) (policy : HoldPolicy) :
    ∃ tile, (source.tiles.map (·.id)).Duplicate tile ∧
      load id source policy = .error (.malformedTileset id (.duplicateTile tile)) := by
  cases hrepeated : firstRepeated? [] (source.tiles.map (·.id)) with
  | none => exact absurd ((firstRepeated?_eq_none_iff _).mp hrepeated) hn
  | some tile =>
    refine ⟨tile, duplicate_of_firstRepeated? hrepeated, ?_⟩
    rw [load, readTiles, hrepeated]

/-- Descriptions that differ in the order of their tiles load alike: either both are refused, each
with an id that it repeats, or the tilesets are equal, track by track, or else the errors are. -/
theorem load_of_perm (id : String) (policy : HoldPolicy) {source : Authored.Tileset}
    {tiles : List Authored.Tile} (hp : source.tiles.Perm tiles) :
    let other := { source with tiles }
    (∀ t, load id source policy = .ok t ↔ load id other policy = .ok t) ∧
    ((source.tiles.map (·.id)).Nodup → load id source policy = load id other policy) ∧
    (¬ (source.tiles.map (·.id)).Nodup →
      ∃ a b, (source.tiles.map (·.id)).Duplicate a ∧ (source.tiles.map (·.id)).Duplicate b ∧
        load id source policy = .error (.malformedTileset id (.duplicateTile a)) ∧
        load id other policy = .error (.malformedTileset id (.duplicateTile b))) := by
  intro other
  have hids : (source.tiles.map (·.id)).Perm (other.tiles.map (·.id)) := hp.map (·.id)
  by_cases hn : (source.tiles.map (·.id)).Nodup
  · have hread : readTiles policy source = readTiles policy other := by
      rw [readTiles_of_nodup hn, readTiles_of_nodup (hids.nodup_iff.mp hn), owned_eq_of_perm hp,
        mergeSort_eq_of_perm hn hp]
    have hload : load id source policy = load id other policy := by
      rw [load, load, hread, unlistedIds_eq_of_perm hp]
    refine ⟨?_, fun _ => hload, fun h => absurd hn h⟩
    intro t
    rw [hload]
  · obtain ⟨a, ha, hload⟩ := load_of_not_nodup hn id policy
    obtain ⟨b, hb, hload'⟩ := load_of_not_nodup (mt hids.nodup_iff.mpr hn) id policy
    have hb' : (source.tiles.map (·.id)).Duplicate b := by
      apply List.duplicate_iff_two_le_count.mpr
      rw [hids.count_eq]
      exact List.duplicate_iff_two_le_count.mp hb
    refine ⟨?_, fun h => absurd h hn, fun _ => ⟨a, b, ha, hb', hload, hload'⟩⟩
    intro t
    rw [hload, hload']
    simp

/-- Two animated tiles, of which the second in the file has the lesser id and so the first track,
and two ids that are repeated in either order of the file but not reported alike. -/
theorem load_of_perm_fountain :
    let tile (id : TileId) (durationMs : UInt32) : Authored.Tile :=
      ⟨id, none, none, [], [], [⟨id, durationMs⟩]⟩
    let source (tiles : List Authored.Tile) : Authored.Tileset := ⟨"fountain", 16, 16, none, none, tiles⟩
    let listed (id : TileId) (slot : ℕ) : Tile := ⟨"f.json", id, ⟨16, 16⟩, [], [], some (.inline slot)⟩
    let late := tile 8 50
    let early := tile 2 70
    [late, early].Perm [early, late] ∧
      load "f.json" (source [early, late]) {} = .ok
        { id := "f.json"
          name := "fountain"
          tileSize := ⟨16, 16⟩
          tiles := [listed 2 0, listed 8 1]
          arena := [⟨{}, [⟨2, 70⟩], by simp⟩, ⟨{}, [⟨8, 50⟩], by simp⟩]
          owners := [2, 8] } ∧
      load "f.json" (source [late, early]) {} = load "f.json" (source [early, late]) {} ∧
      [late, early, early, late].Perm [early, late, late, early] ∧
      ∃ a b, [8, 2, 2, 8].Duplicate a ∧ [8, 2, 2, 8].Duplicate b ∧
        load "f.json" (source [late, early, early, late]) {} =
          .error (.malformedTileset "f.json" (.duplicateTile a)) ∧
        load "f.json" (source [early, late, late, early]) {} =
          .error (.malformedTileset "f.json" (.duplicateTile b)) := by
  intro tile source listed late early
  have hp : (source [late, early]).tiles.Perm [early, late] := .swap ..
  have hp' : (source [late, early, early, late]).tiles.Perm [early, late, late, early] :=
    hp.append hp.symm
  refine ⟨hp, ?_, ?_, hp', ?_⟩
  · cbv
  · exact (load_of_perm "f.json" {} hp).2.1 (by decide)
  · exact (load_of_perm "f.json" {} hp').2.2 (by decide)

end TileWorld.Tileset
