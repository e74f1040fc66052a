import Mathlib
import TileWorld.Proofs.ListedTiles
import TileWorld.Proofs.Playback

/-! The tracks of a loaded tileset. Each belongs to the tile that authored it, and no two to one tile;
since the owners ascend, the first track is that of the least tile with frames. -/
namespace TileWorld

theorem Track.periodMs_eq_sum (track : Track) :
    track.periodMs = (track.frames.map (·.durationMs.toNat)).sum := by
  rw [← Track.before_length, Track.before, Track.length, List.take_length]

/-- In a strictly ascending list of words every place is at most the word there. -/
theorem place_le_of_ascending {ids : List UInt32} (h : ids.Pairwise (· < ·)) {place : Nat}
    {id : UInt32} (hid : ids[place]? = some id) : place ≤ id.toNat := by
  induction place generalizing id with
  | zero => exact Nat.zero_le _
  | succ place ih =>
    obtain ⟨hlt, rfl⟩ := List.getElem?_eq_some_iff.mp hid
    have hplace : place < ids.length := Nat.lt_of_succ_lt hlt
    have hfront := ih (List.getElem?_eq_getElem hplace)
    have hless := List.pairwise_iff_getElem.mp h place (place + 1) hplace hlt place.lt_succ_self
    exact Nat.lt_of_le_of_lt hfront (UInt32.lt_iff_toNat_lt.mp hless)

theorem Tile.inlineSlot?_eq_some_iff (tile : Tile) (slot : Nat) :
    tile.inlineSlot? = some slot ↔ tile.animation = some (.inline slot) := by
  rw [Tile.inlineSlot?]
  split <;> simp_all

namespace Tileset

theorem owner?_lt_iff {t : Tileset} (ht : t.owners.Pairwise (· < ·)) {i j : Nat}
    {a b : TileId} (ha : t.owner? i = some a) (hb : t.owner? j = some b) : a < b ↔ i < j := by
  obtain ⟨hi, rfl⟩ := List.getElem?_eq_some_iff.mp ha
  obtain ⟨hj, rfl⟩ := List.getElem?_eq_some_iff.mp hb
  have hmono {i j : Nat} (hi hj) (hlt : i < j) :=
    List.pairwise_iff_getElem.mp ht i j hi hj hlt
  rcases Nat.lt_trichotomy i j with hlt | rfl | hgt
  · exact iff_of_true (hmono hi hj hlt) hlt
  · exact iff_of_false (UInt32.lt_irrefl _) (Nat.lt_irrefl _)
  · exact iff_of_false (UInt32.lt_asymm (hmono hj hi hgt)) (Nat.lt_asymm hgt)

theorem owner?_inj {t : Tileset} (ht : t.owners.Pairwise (· < ·)) {i j : Nat}
    {a : TileId} (hi : t.owner? i = some a) (hj : t.owner? j = some a) : i = j := by
  have hij := (owner?_lt_iff ht hi hj).not.mp (UInt32.lt_irrefl a)
  have hji := (owner?_lt_iff ht hj hi).not.mp (UInt32.lt_irrefl a)
  omega

theorem owner?_zero {t : Tileset} {slot : Nat} {a : TileId} (h : t.owner? slot = some a) :
    ∃ first, t.owner? 0 = some first := by
  have hlt := (List.getElem?_eq_some_iff.mp h).1
  exact ⟨_, List.getElem?_eq_getElem (Nat.zero_lt_of_lt hlt)⟩

theorem assemble_owners_sublist (tileset : String) (slot : Nat) (drafts : List Draft) :
    (assemble tileset slot drafts).2.2.Sublist (drafts.map (·.id)) := by
  induction drafts generalizing slot with
  | nil => exact .slnil
  | cons d drafts ih =>
    cases ht : d.track with
    | some track => simpa [assemble, ht] using ih (slot + 1)
    | none => simpa [assemble, ht] using (ih slot).cons d.id

section
variable {id : String} {source : Authored.Tileset} {policy : HoldPolicy} {t : Tileset}
  (h : load id source policy = .ok t)
include h

theorem load_owners_ascending : t.owners.Pairwise (· < ·) := by
  have hauthored := mergeSort_ascending (load_ids_perm h).1
  obtain ⟨drafts, hd, rfl⟩ := (load_eq_ok_iff ..).mp h
  obtain ⟨_, hf⟩ := (readTiles_eq_ok_iff ..).mp hd
  refine hauthored.sublist ?_
  rw [← map_eq_of_forall₂ (g := (·.id)) hf fun _ _ => readTile_id]
  exact assemble_owners_sublist id 0 drafts

/-- For every track there is an owner, and for every owner a track. -/
theorem load_length_owners : t.owners.length = t.arena.length := by
  obtain ⟨drafts, _, rfl⟩ := (load_eq_ok_iff ..).mp h
  exact (assemble_in_step id 0 drafts).length_eq.symm

theorem owner?_isSome (slot : Nat) : (t.owner? slot).isSome = (t.track? slot).isSome := by
  rw [Bool.eq_iff_iff, owner?, track?, isSome_getElem?, isSome_getElem?, load_length_owners h]

theorem primarySlot?_eq : t.primarySlot? = (t.owner? 0).map fun _ => 0 := by
  have hlength := load_length_owners h
  rw [primarySlot?, owner?]
  cases howners : t.owners <;> cases harena : t.arena <;> simp_all

/-- A track is what the policy makes of the frames of an authored tile, its owner. -/
theorem exists_authored_of_track? {slot : Nat} {track : Track} (ht : t.track? slot = some track) :
    ∃ authored ∈ source.tiles, t.owner? slot = some authored.id ∧
      track.policy = policy ∧ track.frames = authored.animation := by
  have hsome : (t.owner? slot).isSome = true := by rw [owner?_isSome h, ht, Option.isSome_some]
  obtain ⟨owner, howner⟩ := Option.isSome_iff_exists.mp hsome
  obtain ⟨drafts, hd, rfl⟩ := (load_eq_ok_iff ..).mp h
  obtain ⟨_, hf⟩ := (readTiles_eq_ok_iff ..).mp hd
  obtain ⟨hslot, rfl⟩ := List.getElem?_eq_some_iff.mp ht
  obtain ⟨hslot', rfl⟩ := List.getElem?_eq_some_iff.mp howner
  obtain ⟨d, hdm, htrack, hid⟩ := (assemble_in_step id 0 drafts).get hslot hslot'
  obtain ⟨authored, ham, hread⟩ := exists_mem_of_forall₂ hf hdm
  rw [readTile_track hread, Track.ofFrames?_eq_some_iff] at htrack
  refine ⟨authored, List.mem_mergeSort.mp ham, ?_, htrack⟩
  rw [howner, ← readTile_id hread, hid]
  rfl

/-- An inline animation is the track that the tile owns. -/
theorem owner?_of_inlineSlot? {tile : TileId} {found : Tile} (hl : t.lookup tile = .ok found)
    {slot : Nat} (hs : found.inlineSlot? = some slot) : t.owner? slot = some tile := by
  rw [Tile.inlineSlot?_eq_some_iff] at hs
  obtain ⟨hm, rfl⟩ := mem_of_tile? ((lookup_eq_ok_iff ..).mp hl)
  obtain ⟨drafts, hd, ht⟩ := (load_eq_ok_iff ..).mp h
  rcases (mem_tiles_of_load h hd found).mp hm with hlisted | ⟨_, _, rfl⟩
  · obtain ⟨place, hslot, _, howner⟩ := assemble_inline id 0 drafts found hlisted slot hs
    rw [ht, owner?, hslot, Nat.zero_add]
    exact howner
  · cases hs

theorem inlineSlot?_isSome_iff {authored : Authored.Tile} (ha : authored ∈ source.tiles)
    {found : Tile} (hl : t.lookup authored.id = .ok found) :
    found.inlineSlot?.isSome = true ↔ authored.animation ≠ [] := by
  obtain ⟨d, tile, hread, hbecomes, hlookup⟩ := lookup_authored h ha
  rw [hl, Except.ok.injEq] at hlookup
  rw [hlookup, hbecomes.inline, readTile_track hread]
  exact Track.ofFrames?_isSome_iff policy authored.animation

theorem exists_authored_of_owner? {slot : Nat} {tile : TileId} (ho : t.owner? slot = some tile) :
    ∃ authored ∈ source.tiles, authored.id = tile ∧ authored.animation ≠ [] := by
  have htrack : (t.track? slot).isSome = true := by rw [← owner?_isSome h, ho, Option.isSome_some]
  obtain ⟨track, ht⟩ := Option.isSome_iff_exists.mp htrack
  obtain ⟨authored, ha, howner, _, hframes⟩ := exists_authored_of_track? h ht
  rw [ho, Option.some.injEq] at howner
  exact ⟨authored, ha, howner.symm, hframes ▸ track.frames_ne_nil⟩

/-- The tile that owns a track is there, and plays it. -/
theorem inlineSlot?_of_owner? {slot : Nat} {tile : TileId} (ho : t.owner? slot = some tile) :
    ∃ found, t.lookup tile = .ok found ∧ found.inlineSlot? = some slot := by
  obtain ⟨authored, ha, rfl, hframes⟩ := exists_authored_of_owner? h ho
  obtain ⟨_, found, _, _, hl⟩ := lookup_authored h ha
  have hinline := (inlineSlot?_isSome_iff h ha hl).mpr hframes
  obtain ⟨other, hother⟩ := Option.isSome_iff_exists.mp hinline
  -- A tile owns one track only, so the one that it plays is this one.
  have hsame := owner?_inj (load_owners_ascending h) (owner?_of_inlineSlot? h hl hother) ho
  exact ⟨found, hl, hsame ▸ hother⟩

/-- The first owner is the least tile with frames. -/
theorem primarySlot?_eq_some_iff (slot : Nat) :
    t.primarySlot? = some slot ↔
      ∃ tile found, t.lookup tile = .ok found ∧ found.inlineSlot? = some slot ∧
        ∀ other foundOther, t.lookup other = .ok foundOther →
          foundOther.inlineSlot?.isSome = true → tile ≤ other := by
  have hasc := load_owners_ascending h
  rw [primarySlot?_eq h, Option.map_eq_some_iff]
  constructor
  · rintro ⟨first, hfirst, rfl⟩
    obtain ⟨found, hl, hs⟩ := inlineSlot?_of_owner? h hfirst
    refine ⟨first, found, hl, hs, ?_⟩
    intro other foundOther hlo hinline
    obtain ⟨place, hplace⟩ := Option.isSome_iff_exists.mp hinline
    have hother := owner?_of_inlineSlot? h hlo hplace
    exact UInt32.not_lt.mp ((owner?_lt_iff hasc hother hfirst).not.mpr place.not_lt_zero)
  · rintro ⟨tile, found, hl, hs, hleast⟩
    have ho := owner?_of_inlineSlot? h hl hs
    obtain ⟨first, hfirst⟩ := owner?_zero ho
    obtain ⟨foundFirst, hlf, hsf⟩ := inlineSlot?_of_owner? h hfirst
    -- The owner of the first track is at least the least tile, so that tile's track is no later.
    have hle := hleast first foundFirst hlf (by rw [hsf, Option.isSome_some])
    have hnot := (owner?_lt_iff hasc hfirst ho).not.mp (UInt32.not_lt.mpr hle)
    exact ⟨first, hfirst, by omega⟩

theorem primarySlot?_eq_none_iff :
    t.primarySlot? = none ↔
      ∀ tile found, t.lookup tile = .ok found → found.inlineSlot? = none := by
  rw [primarySlot?_eq h, Option.map_eq_none_iff]
  constructor
  · intro hnone tile found hl
    by_contra hinline
    obtain ⟨slot, hs⟩ := Option.ne_none_iff_exists'.mp hinline
    obtain ⟨first, hfirst⟩ := owner?_zero (owner?_of_inlineSlot? h hl hs)
    exact absurd (hnone.symm.trans hfirst) nofun
  · intro hplain
    by_contra howner
    obtain ⟨first, hfirst⟩ := Option.ne_none_iff_exists'.mp howner
    obtain ⟨found, hl, hs⟩ := inlineSlot?_of_owner? h hfirst
    exact absurd ((hplain first found hl).symm.trans hs) nofun

end

/-- How the tracks of a tileset stand to its tiles, and to the frames that a description lists. -/
structure Arena (t : Tileset) (source : Authored.Tileset) (policy : HoldPolicy) : Prop where
  length_owners : t.owners.length = t.arena.length
  owner?_isSome : ∀ slot, (t.owner? slot).isSome = (t.track? slot).isSome
  /-- Paired with their owners no track is lost, and no owner. -/
  unzip_tracks : t.tracks.unzip = (t.owners, t.arena)
  owner?_lt_iff : ∀ i j a b, t.owner? i = some a → t.owner? j = some b → (a < b ↔ i < j)
  /-- So a word of 32 bits names every track. -/
  slot_lt : ∀ slot, (t.track? slot).isSome = true → slot < 2 ^ 32
  inline_iff : ∀ tile found, t.lookup tile = .ok found → ∀ slot,
    found.animation = some (.inline slot) ↔
      (t.track? slot).isSome = true ∧ t.owner? slot = some tile
  exists_inline_iff : ∀ tile found, t.lookup tile = .ok found →
    ((∃ slot, found.animation = some (.inline slot)) ↔
      ∃ authored ∈ source.tiles, authored.id = tile ∧ authored.animation ≠ [])
  track : ∀ slot track, t.track? slot = some track → ∃ authored ∈ source.tiles,
    t.owner? slot = some authored.id ∧
      track.frames.map (fun f => (f.tile, f.durationMs, track.isHold f)) =
        authored.animation.map (fun f => (f.tile, f.durationMs, policy.isHold f.durationMs)) ∧
      (track.hasHold = true ↔ ∃ f ∈ authored.animation, policy.isHold f.durationMs = true) ∧
      track.periodMs = (authored.animation.map (·.durationMs.toNat)).sum ∧
      ∀ f ∈ track.frames, ∃ shown, t.lookup f.tile = .ok shown
  primarySlot?_eq_some_iff : ∀ slot, t.primarySlot? = some slot ↔
    ∃ tile found, t.lookup tile = .ok found ∧ found.inlineSlot? = some slot ∧
      ∀ other foundOther, t.lookup other = .ok foundOther →
        foundOther.inlineSlot?.isSome = true → tile ≤ other
  primarySlot?_eq_none_iff : t.primarySlot? = none ↔
    ∀ tile found, t.lookup tile = .ok found → found.inlineSlot? = none

/-- The tracks of a loaded tileset are those of the listed frames under the policy, each owned by the
tile that plays it, and the primary one by the least of them. -/
theorem load_arena (id : String) (source : Authored.Tileset) (policy : HoldPolicy) (t : Tileset)
    (h : load id source policy = .ok t) : t.Arena source policy := by
  have hasc := load_owners_ascending h
  constructor
  case length_owners => exact load_length_owners h
  case owner?_isSome => exact owner?_isSome h
  case unzip_tracks => exact List.unzip_zip (load_length_owners h)
  case owner?_lt_iff => exact fun i j a b => owner?_lt_iff hasc
  case slot_lt =>
    intro slot htrack
    rw [← owner?_isSome h] at htrack
    obtain ⟨owner, howner⟩ := Option.isSome_iff_exists.mp htrack
    exact Nat.lt_of_le_of_lt (place_le_of_ascending hasc howner) owner.toNat_lt
  case inline_iff =>
    intro tile found hl slot
    rw [← Tile.inlineSlot?_eq_some_iff, ← owner?_isSome h]
    constructor
    · intro hs
      have ho := owner?_of_inlineSlot? h hl hs
      exact ⟨by rw [ho, Option.isSome_some], ho⟩
    · rintro ⟨_, ho⟩
      obtain ⟨other, hother, hs⟩ := inlineSlot?_of_owner? h ho
      cases hl.symm.trans hother
      exact hs
  case exists_inline_iff =>
    intro tile found hl
    simp only [← Tile.inlineSlot?_eq_some_iff, ← Option.isSome_iff_exists]
    constructor
    · intro hinline
      obtain ⟨slot, hs⟩ := Option.isSome_iff_exists.mp hinline
      exact exists_authored_of_owner? h (owner?_of_inlineSlot? h hl hs)
    · rintro ⟨authored, ha, rfl, hframes⟩
      exact (inlineSlot?_isSome_iff h ha hl).mpr hframes
  case track =>
    intro slot track ht
    obtain ⟨authored, ha, howner, rfl, hframes⟩ := exists_authored_of_track? h ht
    refine ⟨authored, ha, howner, ?_, ?_, ?_, ?_⟩
    · rw [hframes]
      rfl
    · rw [Track.hasHold, hframes, List.any_eq_true]
      rfl
    · rw [Track.periodMs_eq_sum, hframes]
    · intro f hf
      exact (contains_iff_lookup ..).mp ((load_closed h).contains_of_track? ht f hf)
  case primarySlot?_eq_some_iff => exact primarySlot?_eq_some_iff h
  case primarySlot?_eq_none_iff => exact primarySlot?_eq_none_iff h

/-- Two animated tiles out of order and one that refers elsewhere: the first track is that of tile 1,
though tile 7 is listed first. -/
theorem load_arena_fountain :
    let source : Authored.Tileset :=
      { name := "fountain", tileWidth := 16, tileHeight := 16, tileCount := some 3, columns := none
        tiles := [
          ⟨7, none, none, [], [], [⟨7, 100⟩, ⟨2, 0⟩]⟩,
          ⟨4, none, none, [⟨"anim", "file", .string "sun.json"⟩], [], []⟩,
          ⟨1, none, none, [], [], [⟨0, 50⟩, ⟨7, 25⟩]⟩] }
    let t : Tileset :=
      { id := "fountain.json", name := "fountain", tileSize := ⟨16, 16⟩
        tiles := [
          plainTile "fountain.json" ⟨16, 16⟩ 0,
          ⟨"fountain.json", 1, ⟨16, 16⟩, [], [], some (.inline 0)⟩,
          plainTile "fountain.json" ⟨16, 16⟩ 2,
          ⟨"fountain.json", 4, ⟨16, 16⟩, [], [("anim", .file "sun.json")],
            some (.external "sun.json")⟩,
          ⟨"fountain.json", 7, ⟨16, 16⟩, [], [], some (.inline 1)⟩]
        arena := [⟨{}, [⟨0, 50⟩, ⟨7, 25⟩], by simp⟩, ⟨{}, [⟨7, 100⟩, ⟨2, 0⟩], by simp⟩]
        owners := [1, 7] }
    load "fountain.json" source {} = .ok t ∧ t.primarySlot? = some 0 ∧ t.owner? 1 = some 7 ∧
      t.Arena source {} := by
  intro source t
  have hload : load "fountain.json" source {} = .ok t := by cbv
  exact ⟨hload, rfl, rfl, load_arena "fountain.json" source {} t hload⟩

end Tileset

end TileWorld
