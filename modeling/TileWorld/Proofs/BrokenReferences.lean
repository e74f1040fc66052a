import TileWorld.Proofs.LoadingOrder
import TileWorld.Proofs.OwnedTiles
import TileWorld.Proofs.ReferenceTargets
import TileWorld.Proofs.WorldConsistency

/-! The listing of references that do not resolve, against what can be spawned. In every world that a
run reaches the two agree tile by tile, and the listing stands in the order of the tilesets and of
their tiles. -/
namespace TileWorld

namespace Tile

/-- The error for a tile whose reference does not resolve. -/
def brokenReference (tile : Tile) : Error :=
  .brokenReference tile.tileset tile.id (tile.reference?.getD "")

/-- The order of tiles by tileset, and inside a tileset by tile. -/
def Precedes (a b : Tile) : Prop :=
  a.tileset < b.tileset ∨ a.tileset = b.tileset ∧ a.id < b.id

theorem reference?_isSome_iff (tile : Tile) :
    tile.reference?.isSome = true ↔ ∃ path, tile.animation = some (.external path) := by
  simp only [reference?]
  split <;> simp_all

end Tile

namespace Store

/-- A tile refers to another tileset's animation in vain. -/
structure Dangles (s : Store) (tile : Tile) : Prop where
  refers : tile.reference?.isSome = true
  unresolved : ∀ ref, s.resolveReference tile ≠ .ok ref

/-- What spawning a tile puts on show first, and the cursor that comes with it. -/
inductive Starts (s : Store) (tile : Tile) : TileRef → Option Cursor → Prop where
  /-- A tile without an animation shows itself. -/
  | still (animation : tile.animation = none) : Starts s tile ⟨tile.tileset, tile.id⟩ none
  /-- An animated tile shows the first frame of its track, in the tileset of the track. -/
  | plays {ref : TrackRef} {track : Track} {frame : Frame}
      (animation : tile.animation.isSome = true) (resolves : s.resolve tile = .ok (some ref))
      (published : s.track? ref = some track) (first : track.frame? 0 = some frame) :
      Starts s tile ⟨ref.tileset, frame.tile⟩ (some (.start ref))

theorem Starts.cursor_isSome_iff {s : Store} {tile : Tile} {shown : TileRef}
    {cursor : Option Cursor} (h : s.Starts tile shown cursor) :
    cursor.isSome = true ↔ tile.animation.isSome = true := by
  cases h with
  | still animation => simp [animation]
  | plays animation => simp [animation]

theorem resolveReference_eq_error {s : Store} {tile : Tile} (hr : tile.reference?.isSome = true)
    {e : Error} (h : s.resolveReference tile = .error e) : e = tile.brokenReference := by
  obtain ⟨reference, hr⟩ := Option.isSome_iff_exists.mp hr
  rw [resolveReference_eq s hr, Tile.resolved] at h
  split at h
  next => cases h
  next =>
    rw [Tile.brokenReference, hr, Option.getD_some]
    exact (Except.error.inj h).symm

/-- Only a reference can fail to resolve. -/
theorem resolve_eq_error_iff (s : Store) (tile : Tile) (e : Error) :
    s.resolve tile = .error e ↔ s.Dangles tile ∧ e = tile.brokenReference := by
  constructor
  · intro h
    simp only [resolve] at h
    split at h
    next => cases h
    next => cases h
    next path ha =>
      have hrefers : tile.reference?.isSome = true := (Tile.reference?_isSome_iff tile).mpr ⟨path, ha⟩
      have he := (map_eq_error_iff ..).mp h
      refine ⟨⟨hrefers, ?_⟩, resolveReference_eq_error hrefers he⟩
      intro ref hok
      rw [hok] at he
      cases he
  · rintro ⟨⟨hrefers, hunresolved⟩, rfl⟩
    obtain ⟨path, ha⟩ := (Tile.reference?_isSome_iff tile).mp hrefers
    simp only [resolve, ha]
    rw [map_eq_error_iff]
    cases hr : s.resolveReference tile with
    | ok ref => exact absurd hr (hunresolved ref)
    | error e => rw [resolveReference_eq_error hrefers hr]

/-- Every published tile, by tileset and by tile. -/
def tiles (s : Store) : List Tile :=
  s.sorted.flatMap Tileset.tiles

/-- A store of loaded tilesets: each is closed, and lists its tiles by ascending id. -/
structure Orderly (s : Store) : Prop where
  closed : s.Closed
  ascending : ∀ t ∈ s.tilesets, t.Ascending

variable {s : Store}

theorem Orderly.mem_tiles (hs : s.Orderly) (tile : Tile) :
    tile ∈ s.tiles ↔ s.lookup tile.tileset tile.id = .ok tile := by
  simp only [tiles, List.mem_flatMap, s.sorted_perm.mem_iff]
  constructor
  · rintro ⟨t, ht, hm⟩
    have hfound := ((hs.ascending t ht).mem_tiles tile).mp hm
    have hid : tile.tileset = t.id := (hs.closed t ht).tile?_tileset hfound
    exact (lookup_eq_ok_iff ..).mpr ⟨t, (find?_eq_some_iff ..).mpr ⟨ht, hid.symm⟩, hfound⟩
  · intro h
    obtain ⟨t, ht, hfound⟩ := (lookup_eq_ok_iff ..).mp h
    exact ⟨t, find?_mem ht, ((hs.ascending t (find?_mem ht)).mem_tiles tile).mpr hfound⟩

theorem sorted_strict (s : Store) : s.sorted.Pairwise fun a b => a.id < b.id := by
  have hdistinct : (s.sorted.map (·.id)).Nodup :=
    ((s.sorted_perm.map (·.id)).nodup_iff).mpr s.nodup
  refine (s.sorted_pairwise.and (List.pairwise_map.mp hdistinct)).imp ?_
  rintro a b ⟨hle, hne⟩
  by_contra hlt
  exact hne (String.le_antisymm (String.not_lt.mp hle) (String.not_lt.mp hlt))

theorem Orderly.tiles_pairwise (hs : s.Orderly) : s.tiles.Pairwise Tile.Precedes := by
  have htileset {t : Tileset} (ht : t ∈ s.sorted) {tile : Tile} (hm : tile ∈ t.tiles) :
      tile.tileset = t.id := by
    have ht' : t ∈ s.tilesets := s.sorted_perm.mem_iff.mp ht
    exact (hs.closed t ht').tile?_tileset (((hs.ascending t ht').mem_tiles tile).mp hm)
  rw [tiles, List.pairwise_flatMap]
  refine ⟨?_, s.sorted_strict.imp_of_mem ?_⟩
  -- Inside a tileset the ids ascend, and between two tilesets their own ids do.
  · intro t ht
    have hids := hs.ascending t (s.sorted_perm.mem_iff.mp ht)
    refine (List.pairwise_map.mp hids).imp_of_mem ?_
    intro a b ha hb hlt
    exact Or.inr ⟨(htileset ht ha).trans (htileset ht hb).symm, hlt⟩
  · intro t u ht hu hlt a ha b hb
    refine Or.inl ?_
    rwa [htileset ht ha, htileset hu hb]

/-- The listing goes through all tiles in turn and keeps those that refer in vain. -/
theorem brokenReferences_eq (s : Store) [DecidablePred s.Dangles] :
    s.brokenReferences = (s.tiles.filter fun tile => s.Dangles tile).map Tile.brokenReference := by
  rw [brokenReferences, ← List.filterMap_eq_map, List.filterMap_filter]
  refine List.filterMap_congr fun tile _ => ?_
  by_cases hrefers : tile.reference?.isSome = true
  · rw [if_pos hrefers]
    cases hr : s.resolveReference tile with
    | ok ref =>
      have hresolved : ¬s.Dangles tile := fun h => h.unresolved ref hr
      simp [hresolved]
    | error e =>
      have hdangles : s.Dangles tile := ⟨hrefers, fun ref hok => by rw [hok] at hr; cases hr⟩
      simp [hdangles, resolveReference_eq_error hrefers hr]
  · have hresolved : ¬s.Dangles tile := fun h => hrefers h.refers
    simp [hrefers, hresolved]

theorem Orderly.mem_brokenReferences (hs : s.Orderly) (e : Error) :
    e ∈ s.brokenReferences ↔
      ∃ tile, s.lookup tile.tileset tile.id = .ok tile ∧ s.Dangles tile ∧
        e = tile.brokenReference := by
  classical
  simp only [brokenReferences_eq, List.mem_map, List.mem_filter, hs.mem_tiles, decide_eq_true_eq]
  constructor
  · rintro ⟨tile, ⟨hl, hd⟩, rfl⟩
    exact ⟨tile, hl, hd, rfl⟩
  · rintro ⟨tile, hl, hd, rfl⟩
    exact ⟨tile, ⟨hl, hd⟩, rfl⟩

theorem starts_of_start (hs : s.Closed) {tileset : String} {id : TileId} {tile : Tile}
    (hl : s.lookup tileset id = .ok tile) {shown : TileRef} {cursor : Option Cursor}
    (h : s.start tile = .ok (shown, cursor)) : s.Starts tile shown cursor := by
  rcases (start_eq_ok_iff ..).mp h with ⟨hr, rfl, rfl⟩ | ⟨ref, hr, rfl, rfl⟩
  · refine .still ?_
    simp only [resolve] at hr
    split at hr
    next ha => exact ha
    next => cases hr
    next => simp [map_eq_ok_iff] at hr
  · obtain ⟨track, htrack⟩ := hs.resolve_track hl hr
    obtain ⟨frame, hframe, hfirst⟩ := track.frame?_zero
    have hanimated : tile.animation.isSome = true := by
      simp only [resolve] at hr
      split at hr <;> simp_all
    rw [htrack, Option.map_some, Option.getD_some, ← hfirst]
    exact .plays hanimated hr htrack hframe

end Store

theorem Entity.spawn_eq_error_iff (s : Store) (tileset : String) (tile : TileId) (place : Placement)
    (e : Error) :
    spawn s tileset tile place = .error e ↔
      s.lookup tileset tile = .error e ∨
        ∃ source, s.lookup tileset tile = .ok source ∧ s.Dangles source ∧
          e = source.brokenReference := by
  simp only [spawn, bind_eq_error_iff, Store.resolve_eq_error_iff]
  simp [pure, Except.pure]

namespace World

theorem run_orderly (settings : Settings) (actions : List Action) :
    ((ofSettings settings).run actions).store.Orderly where
  closed := run_closed settings actions
  ascending := by
    refine (run_published _ actions).forall_tilesets (fun _ _ _ _ => Tileset.load_ascending) ?_
    intro t ht
    cases ht

/-- A published tile fails to spawn exactly with its own error, when that is in the listing. -/
theorem add_eq_error_iff_listed {w : World} (hs : w.store.Orderly) {tileset : String}
    {id : TileId} {tile : Tile} (hl : w.store.lookup tileset id = .ok tile) (place : Placement)
    (e : Error) :
    (w.add tileset id place).1 = .error e ↔
      e = tile.brokenReference ∧ e ∈ w.store.brokenReferences := by
  obtain ⟨htileset, hid⟩ := hs.closed.lookup_self hl
  rw [add_eq_error_iff, Entity.spawn_eq_error_iff, hs.mem_brokenReferences]
  simp only [hl, reduceCtorEq, Except.ok.injEq, false_or, exists_eq_left']
  constructor
  · rintro ⟨hdangles, rfl⟩
    exact ⟨rfl, tile, by rwa [htileset, hid], hdangles, rfl⟩
  · -- The error names the tile, so an equal one in the listing is that of this tile.
    rintro ⟨rfl, other, hother, hdangles, he⟩
    have hnames : tile.tileset = other.tileset ∧ tile.id = other.id := by
      simp only [Tile.brokenReference, Error.brokenReference.injEq] at he
      exact ⟨he.1, he.2.1⟩
    rw [← hnames.1, ← hnames.2, htileset, hid, hl] at hother
    obtain rfl := Except.ok.inj hother
    exact ⟨hdangles, rfl⟩

/-- A world that differs from another by one more entity alone. -/
structure Gains (w : World) (i : EntityId) (e : Entity) (w' : World) : Prop where
  new : w.entity? i = none
  there : w'.entity? i = some e
  others : ∀ j, j ≠ i → w'.entity? j = w.entity? j
  store : w'.store = w.store
  clock : w'.clock = w.clock
  settings : w'.settings = w.settings

theorem gains_insert (w : World) (e : Entity) : w.Gains w.entities.length e (w.insert e).2 where
  new := by simp [entity?]
  there := w.entity?_insert_self e
  others j hj := by rw [entity?_insert, if_neg hj]
  store := rfl
  clock := rfl
  settings := rfl

/-- A spawn that answers with an entity has put it into the world, where it shows what its tile
starts with. -/
theorem add_eq_ok {w : World} (hs : w.store.Closed) {tileset : String} {id : TileId}
    {place : Placement} {i : EntityId} (h : (w.add tileset id place).1 = .ok i) :
    ∃ tile e shown, w.store.lookup tileset id = .ok tile ∧
      w.Gains i e (w.add tileset id place).2 ∧ e.tile.map (·.value) = some shown ∧
      w.store.Starts tile shown e.cursor := by
  rcases w.add_cases tileset id place with ⟨_, -, hadd⟩ | ⟨e, he, hadd⟩
  · rw [hadd] at h
    cases h
  · obtain ⟨tile, shown, cursor, hl, hstart, rfl⟩ := (Entity.spawn_eq_ok_iff ..).mp he
    rw [hadd] at h ⊢
    obtain rfl := Except.ok.inj h
    exact ⟨tile, _, shown, hl, w.gains_insert _, rfl, Store.starts_of_start hs hl hstart⟩

/-- In every world that a run reaches, the listing has one error for each published tile that refers
in vain, by tileset and by tile, and nothing else. A published tile fails to spawn exactly with an
error of the listing, its own; what is not published fails as unknown; and the world after a failed
spawn is the one before it. A spawn that succeeds adds one entity and changes nothing else: the new
entity shows what its tile starts with, and has a cursor if and only if the tile is animated. -/
theorem run_brokenReferences_unspawnable (settings : Settings) (actions : List Action) :
    let w := (ofSettings settings).run actions
    (∃ tiles : List Tile, w.store.brokenReferences = tiles.map Tile.brokenReference ∧
      tiles.Pairwise Tile.Precedes ∧
      ∀ tile, tile ∈ tiles ↔
        w.store.lookup tile.tileset tile.id = .ok tile ∧ w.store.Dangles tile) ∧
    ∀ tileset id place,
      let answer := (w.add tileset id place).1
      let w' := (w.add tileset id place).2
      (w.store.find? tileset = none → answer = .error (.unknownTileset tileset)) ∧
      (∀ t, w.store.find? tileset = some t → t.tile? id = none →
        answer = .error (.unknownTile tileset id)) ∧
      (∀ tile, w.store.lookup tileset id = .ok tile → ∀ e,
        answer = .error e ↔ e = tile.brokenReference ∧ e ∈ w.store.brokenReferences) ∧
      (∀ e, answer = .error e → w' = w) ∧
      ∀ i, answer = .ok i →
        ∃ tile e shown, w.store.lookup tileset id = .ok tile ∧ w.Gains i e w' ∧
          e.tile.map (·.value) = some shown ∧ w.store.Starts tile shown e.cursor ∧
          (e.cursor.isSome = true ↔ tile.animation.isSome = true) := by
  intro w
  have hs : w.store.Orderly := run_orderly settings actions
  refine ⟨?_, ?_⟩
  · classical
    refine ⟨w.store.tiles.filter fun tile => w.store.Dangles tile, w.store.brokenReferences_eq,
      hs.tiles_pairwise.filter _, ?_⟩
    intro tile
    rw [List.mem_filter, hs.mem_tiles, decide_eq_true_eq]
  · intro tileset id place answer w'
    have hfails (e : Error) (h : w.store.lookup tileset id = .error e) : answer = .error e :=
      (w.add_eq_error_iff ..).mpr ((Entity.spawn_eq_error_iff ..).mpr (Or.inl h))
    refine ⟨?_, ?_, ?_, ?_, ?_⟩
    · intro hnone
      exact hfails _ (by simp [Store.lookup, Store.tileset, hnone, bind, Except.bind])
    · intro t ht hnone
      exact hfails _ (by simp [Store.lookup, Store.tileset, ht, Tileset.lookup, hnone,
        Store.find?_id ht, bind, Except.bind])
    · exact fun tile hl e => add_eq_error_iff_listed hs hl place e
    · exact fun e => add_of_error
    · intro i hi
      obtain ⟨tile, e, shown, hl, hgains, hshown, hstarts⟩ := add_eq_ok hs.closed hi
      exact ⟨tile, e, shown, hl, hgains, hshown, hstarts, hstarts.cursor_isSome_iff⟩

/-- A lamp that burns, one that takes its animation from it, and one that refers in vain. -/
theorem run_brokenReferences_unspawnable_lamp :
    let anim (path : String) : Authored.Property := ⟨"anim", "file", .string path⟩
    let source : Authored.Tileset :=
      ⟨"lamp", 16, 16, none, none,
        [⟨5, none, none, [], [], [⟨5, 100⟩]⟩, ⟨6, none, none, [anim "lamp.json"], [], []⟩,
          ⟨7, none, none, [anim "gone.json"], [], []⟩]⟩
    let w := (ofSettings {}).run [.insert "lamp.json" source {}, .spawn "lamp.json" 5 default]
    let broken : Error := .brokenReference "lamp.json" 7 "gone.json"
    w.store.brokenReferences = [broken] ∧ w.add "lamp.json" 7 default = (.error broken, w) ∧
      ∃ e w', w.add "lamp.json" 6 default = (.ok 1, w') ∧ w.Gains 1 e w' ∧
        e.tile.map (·.value) = some ⟨"lamp.json", 5⟩ ∧ e.cursor = some (.start ⟨"lamp.json", 0⟩) := by
  intro anim source w broken
  let tile (id : TileId) (properties : Properties) (animation : Animation) : Tile :=
    ⟨"lamp.json", id, ⟨16, 16⟩, [], properties, some animation⟩
  let guest : Tile := tile 6 [("anim", .file "lamp.json")] (.external "lamp.json")
  let track : Track := ⟨{}, [⟨5, 100⟩], by simp⟩
  let t : Tileset :=
    ⟨"lamp.json", "lamp", ⟨16, 16⟩,
      [tile 5 [] (.inline 0), guest, tile 7 [("anim", .file "gone.json")] (.external "gone.json")],
      [track], [5]⟩
  have hload : Tileset.load "lamp.json" source {} = .ok t := by cbv
  have hw : w = { ofSettings {} with store := (Store.empty.offer (.ok t)).2 }.act
      (.spawn "lamp.json" 5 default) :=
    congrArg (fun loaded => { ofSettings {} with store := (Store.empty.offer loaded).2 }.act
      (.spawn "lamp.json" 5 default)) hload
  obtain ⟨-, hspawns⟩ := run_brokenReferences_unspawnable {}
    [.insert "lamp.json" source {}, .spawn "lamp.json" 5 default]
  obtain ⟨-, -, -, hfailed, -⟩ := hspawns "lamp.json" 7 default
  obtain ⟨-, -, -, -, hadded⟩ := hspawns "lamp.json" 6 default
  have hbroken : w.store.brokenReferences = [broken] := by
    rw [hw]
    decide +kernel
  have hfails : (w.add "lamp.json" 7 default).1 = .error broken := by
    rw [hw]
    decide +kernel
  have hadds : (w.add "lamp.json" 6 default).1 = .ok 1 := by
    rw [hw]
    decide +kernel
  have hguest : w.store.lookup "lamp.json" 6 = .ok guest := by
    rw [hw]
    decide +kernel
  have hresolves : w.store.resolve guest = .ok (some ⟨"lamp.json", 0⟩) := by
    rw [hw]
    decide +kernel
  have htrack : w.store.track? ⟨"lamp.json", 0⟩ = some track := by
    rw [hw]
    decide +kernel
  refine ⟨hbroken, Prod.ext hfails (hfailed broken hfails), ?_⟩
  obtain ⟨source', e, shown, hl, hgains, hshown, hstarts, -⟩ := hadded 1 hadds
  obtain rfl := Except.ok.inj (hguest.symm.trans hl)
  refine ⟨e, _, Prod.ext hadds rfl, hgains, ?_⟩
  rw [hshown]
  generalize e.cursor = cursor at hstarts ⊢
  cases hstarts with
  | still hstill => cases hstill
  | plays _ hplays hpublished hfirst =>
    obtain rfl := Option.some.inj (Except.ok.inj (hresolves.symm.trans hplays))
    obtain rfl := Option.some.inj (htrack.symm.trans hpublished)
    obtain rfl := Option.some.inj hfirst
    exact ⟨rfl, rfl⟩

end World

end TileWorld
