import Mathlib.Data.List.Nodup
import Mathlib.Tactic.SplitIfs
import TileWorld.Tileset.Basic

/-! Look-up by halving. In tiles by strictly ascending id it finds what is there, so a tileset whose
tiles ascend answers for exactly these. -/
namespace TileWorld.Tileset

/-- Whatever halving finds is one of the tiles, in any order of them. -/
theorem mem_of_bisect? {id : TileId} {steps : Nat} {tiles : List Tile} {tile : Tile}
    (h : bisect? id steps tiles = some tile) : tile ∈ tiles ∧ tile.id = id := by
  induction steps generalizing tiles with
  | zero => cases h
  | succ steps ih =>
    rw [bisect?] at h
    split at h
    next => cases h
    next middle hmiddle =>
      split_ifs at h with hid hless
      · cases h
        exact ⟨List.mem_of_getElem? hmiddle, hid⟩
      · exact (ih h).imp_left List.mem_of_mem_take
      · exact (ih h).imp_left List.mem_of_mem_drop

/-- Around a tile in its place the ids are less in front and greater behind. -/
theorem mem_iff_of_getElem? {tiles : List Tile} (h : (tiles.map (·.id)).Pairwise (· < ·))
    {place : Nat} {middle : Tile} (hm : tiles[place]? = some middle) (tile : Tile) :
    tile ∈ tiles ↔ (tile ∈ tiles.take place ∧ tile.id < middle.id) ∨ tile = middle ∨
      (tile ∈ tiles.drop (place + 1) ∧ middle.id < tile.id) := by
  obtain ⟨hlt, hget⟩ := List.getElem?_eq_some_iff.mp hm
  have hsplit : tiles = tiles.take place ++ middle :: tiles.drop (place + 1) := by
    rw [← hget, List.getElem_cons_drop, List.take_append_drop]
  rw [hsplit, List.map_append, List.map_cons, List.pairwise_append, List.pairwise_cons] at h
  obtain ⟨_, ⟨hbehind, _⟩, hfront⟩ := h
  simp only [List.forall_mem_map, List.forall_mem_cons] at hbehind hfront
  conv_lhs => rw [hsplit, List.mem_append, List.mem_cons]
  constructor
  · rintro (hmem | rfl | hmem)
    · exact Or.inl ⟨hmem, (hfront tile hmem).1⟩
    · exact Or.inr (Or.inl rfl)
    · exact Or.inr (Or.inr ⟨hmem, hbehind tile hmem⟩)
  · rintro (⟨hmem, _⟩ | rfl | ⟨hmem, _⟩)
    · exact Or.inl hmem
    · exact Or.inr (Or.inl rfl)
    · exact Or.inr (Or.inr hmem)

/-- As many steps as there are tiles are enough. -/
theorem bisect?_of_mem {steps : Nat} {tiles : List Tile} (hsteps : tiles.length ≤ steps)
    (h : (tiles.map (·.id)).Pairwise (· < ·)) {tile : Tile} (hm : tile ∈ tiles) :
    bisect? tile.id steps tiles = some tile := by
  induction steps generalizing tiles with
  | zero =>
    rw [List.length_eq_zero_iff.mp (Nat.le_zero.mp hsteps)] at hm
    cases hm
  | succ steps ih =>
    have hhalf : tiles.length / 2 < tiles.length :=
      Nat.div_lt_self (List.length_pos_of_mem hm) Nat.one_lt_two
    have hmiddle := List.getElem?_eq_getElem hhalf
    have hfront : (tiles.take (tiles.length / 2)).length ≤ steps := by
      rw [List.length_take]
      omega
    have hbehind : (tiles.drop (tiles.length / 2 + 1)).length ≤ steps := by
      rw [List.length_drop]
      omega
    rw [bisect?, hmiddle]
    -- The tile stands where its id is looked for next.
    rcases (mem_iff_of_getElem? h hmiddle tile).mp hm with ⟨hmem, hless⟩ | rfl | ⟨hmem, hgreater⟩
    · simp only [if_neg (UInt32.ne_of_lt hless).symm, if_pos hless]
      exact ih hfront (h.sublist ((List.take_sublist ..).map _)) hmem
    · exact if_pos rfl
    · simp only [if_neg (UInt32.ne_of_lt hgreater), if_neg (UInt32.lt_asymm hgreater)]
      exact ih hbehind (h.sublist ((List.drop_sublist ..).map _)) hmem

theorem mem_of_tile? {t : Tileset} {id : TileId} {tile : Tile} (h : t.tile? id = some tile) :
    tile ∈ t.tiles ∧ tile.id = id :=
  mem_of_bisect? h

theorem lookup_eq_ok_iff (t : Tileset) (id : TileId) (tile : Tile) :
    t.lookup id = .ok tile ↔ t.tile? id = some tile := by
  simp only [lookup]
  split <;> simp_all

theorem contains_iff_lookup (t : Tileset) (id : TileId) :
    t.contains id = true ↔ ∃ tile, t.lookup id = .ok tile := by
  simp only [contains, Option.isSome_iff_exists, lookup_eq_ok_iff]

/-- The tiles stand by strictly ascending id. -/
def Ascending (t : Tileset) : Prop :=
  (t.tiles.map (·.id)).Pairwise (· < ·)

namespace Ascending

variable {t : Tileset} (ht : t.Ascending)
include ht

theorem mem_tiles (tile : Tile) : tile ∈ t.tiles ↔ t.tile? tile.id = some tile :=
  ⟨bisect?_of_mem (Nat.le_refl _) ht, fun h => (mem_of_tile? h).1⟩

theorem tile?_eq_some_iff (id : TileId) (tile : Tile) :
    t.tile? id = some tile ↔ tile ∈ t.tiles ∧ tile.id = id := by
  refine ⟨mem_of_tile?, ?_⟩
  rintro ⟨hm, rfl⟩
  exact (ht.mem_tiles tile).mp hm

theorem contains_iff (id : TileId) : t.contains id = true ↔ id ∈ t.tiles.map (·.id) := by
  simp only [contains, Option.isSome_iff_exists, ht.tile?_eq_some_iff, List.mem_map]

/-- Halving finds what going through all the tiles does. -/
theorem tile?_eq_find? (id : TileId) : t.tile? id = t.tiles.find? (·.id = id) := by
  ext tile
  rw [ht.tile?_eq_some_iff]
  constructor
  · rintro ⟨hm, rfl⟩
    have hsome : (t.tiles.find? (·.id = tile.id)).isSome = true := by
      simpa using ⟨tile, hm, rfl⟩
    obtain ⟨found, hfound⟩ := Option.isSome_iff_exists.mp hsome
    have hid : found.id = tile.id := by simpa using List.find?_some hfound
    rw [hfound, List.inj_on_of_nodup_map (ht.imp UInt32.ne_of_lt) (List.mem_of_find?_eq_some hfound) hm hid]
  · intro hfound
    exact ⟨List.mem_of_find?_eq_some hfound, by simpa using List.find?_some hfound⟩

end Ascending

end TileWorld.Tileset
