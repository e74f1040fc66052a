import TileWorld.Proofs.FirstFlaw

/-! The tiles of a load: one for each authored tile, found under its id, and the cells of the grid that
are not listed. -/
namespace TileWorld

theorem forall₂_comp {α β γ : Type} {R : α → β → Prop} {S : β → γ → Prop} {xs : List α}
    {ys : List β} {zs : List γ} (hR : List.Forall₂ R xs ys) (hS : List.Forall₂ S ys zs) :
    List.Forall₂ (fun x z => ∃ y, R x y ∧ S y z) xs zs := by
  induction hR generalizing zs with
  | nil =>
    cases hS
    exact .nil
  | cons hxy _ ih =>
    cases hS with
    | cons hyz hrest => exact .cons ⟨_, hxy, hyz⟩ (ih hrest)

namespace Tileset

section
variable {id : String} {source : Authored.Tileset} {policy : HoldPolicy} {t : Tileset}
  (h : load id source policy = .ok t)
include h

/-- The tiles are those authored and the unlisted cells. -/
theorem load_listed :
    ∃ listed, List.Forall₂ (fun authored tile => ∃ d,
          readTile (owned source) policy ⟨source.tileWidth, source.tileHeight⟩ authored = .ok d ∧
            d.Becomes tile)
        (source.tiles.mergeSort (·.id ≤ ·.id)) listed ∧
      ∀ tile, tile ∈ t.tiles ↔ tile ∈ listed ∨
        ∃ n ∈ unlistedIds source, plainTile id ⟨source.tileWidth, source.tileHeight⟩ n = tile := by
  obtain ⟨drafts, hd, _⟩ := (load_eq_ok_iff ..).mp h
  obtain ⟨_, hread⟩ := (readTiles_eq_ok_iff ..).mp hd
  exact ⟨_, forall₂_comp hread (assemble_becomes id 0 drafts), mem_tiles_of_load h hd⟩

/-- An authored tile is read, and looked up under its id. -/
theorem lookup_authored {authored : Authored.Tile} (ha : authored ∈ source.tiles) :
    ∃ d tile,
      readTile (owned source) policy ⟨source.tileWidth, source.tileHeight⟩ authored = .ok d ∧
        d.Becomes tile ∧ t.lookup authored.id = .ok tile := by
  obtain ⟨listed, hlisted, hmem⟩ := load_listed h
  obtain ⟨tile, hm, d, hread, hbecomes⟩ :=
    exists_mem_of_forall₂ hlisted.flip (List.mem_mergeSort.mpr ha)
  refine ⟨d, tile, hread, hbecomes, (lookup_eq_ok_iff ..).mpr ?_⟩
  rw [← readTile_id hread, ← hbecomes.id]
  exact ((load_ascending h).mem_tiles tile).mp ((hmem tile).mpr (Or.inl hm))

/-- A tile was authored, or it is an unlisted cell. -/
theorem exists_authored {tile : Tile} (hm : tile ∈ t.tiles) :
    (∃ authored ∈ source.tiles, ∃ d,
      readTile (owned source) policy ⟨source.tileWidth, source.tileHeight⟩ authored = .ok d ∧
        d.Becomes tile) ∨
      ∃ n ∈ unlistedIds source, plainTile id ⟨source.tileWidth, source.tileHeight⟩ n = tile := by
  obtain ⟨listed, hlisted, hmem⟩ := load_listed h
  refine ((hmem tile).mp hm).imp_left fun hlist => ?_
  obtain ⟨authored, ham, hauthored⟩ := exists_mem_of_forall₂ hlisted hlist
  exact ⟨authored, List.mem_mergeSort.mp ham, hauthored⟩

end

end Tileset

end TileWorld
