import Mathlib.Data.List.Forall2
import TileWorld.Proofs.TileLookup
import TileWorld.Tileset.Load

/-! What a successful load makes sure of: the tiles ascend and carry the id of their tileset, inline
tracks are there, and every frame shows an owned tile. -/
namespace TileWorld

theorem bind_eq_ok_iff {ε α β : Type} (x : Except ε α) (f : α → Except ε β) (b : β) :
    x >>= f = .ok b ↔ ∃ a, x = .ok a ∧ f a = .ok b := by
  cases x <;> simp [bind, Except.bind]

theorem map_eq_ok_iff {ε α β : Type} (f : α → β) (x : Except ε α) (b : β) :
    x.map f = .ok b ↔ ∃ a, x = .ok a ∧ f a = b := by
  cases x <;> simp [Except.map]

theorem bind_eq_error_iff {ε α β : Type} (x : Except ε α) (f : α → Except ε β) (e : ε) :
    x >>= f = .error e ↔ x = .error e ∨ ∃ a, x = .ok a ∧ f a = .error e := by
  cases x <;> simp [bind, Except.bind]

theorem map_eq_error_iff {ε α β : Type} (f : α → β) (x : Except ε α) (e : ε) :
    x.map f = .error e ↔ x = .error e := by
  cases x <;> simp [Except.map]

theorem ite_eq_ok_iff {ε α : Type} (c : Prop) [Decidable c] (a b : α) (e : ε) :
    (if c then .ok a else .error e) = Except.ok b ↔ c ∧ a = b := by
  split <;> simp [*]

/-- A traversal succeeds when every step does, with the values of the steps in order. -/
theorem mapM_eq_ok_iff {ε α β : Type} (f : α → Except ε β) (xs : List α) (ys : List β) :
    xs.mapM f = .ok ys ↔ List.Forall₂ (fun x y => f x = .ok y) xs ys := by
  induction xs generalizing ys with
  | nil =>
    rw [List.mapM_nil, List.forall₂_nil_left_iff]
    exact ⟨fun h => (Except.ok.inj h).symm, fun h => congrArg Except.ok h.symm⟩
  | cons x xs ih =>
    simp only [List.mapM_cons, bind_eq_ok_iff, ih, List.forall₂_cons_left_iff]
    constructor
    · rintro ⟨y, hy, zs, hzs, h⟩
      exact ⟨y, zs, hy, hzs, (Except.ok.inj h).symm⟩
    · rintro ⟨y, zs, hy, hzs, rfl⟩
      exact ⟨y, hy, zs, hzs, rfl⟩

theorem map_eq_of_forall₂ {α β γ : Type} {R : α → β → Prop} {f : α → γ} {g : β → γ}
    {xs : List α} {ys : List β} (h : List.Forall₂ R xs ys) (hr : ∀ x y, R x y → g y = f x) :
    ys.map g = xs.map f := by
  induction h with
  | nil => rfl
  | cons hxy _ ih => rw [List.map_cons, List.map_cons, hr _ _ hxy, ih]

theorem exists_mem_of_forall₂ {α β : Type} {R : α → β → Prop} {xs : List α} {ys : List β}
    (h : List.Forall₂ R xs ys) {y : β} (hy : y ∈ ys) : ∃ x ∈ xs, R x y := by
  induction h with
  | nil => simp at hy
  | cons hxy _ ih =>
    rcases List.mem_cons.mp hy with rfl | hy
    · exact ⟨_, List.mem_cons_self, hxy⟩
    · obtain ⟨x, hx, hr⟩ := ih hy
      exact ⟨x, List.mem_cons_of_mem _ hx, hr⟩

theorem Track.ofFrames?_isSome_iff (policy : HoldPolicy) (frames : List Frame) :
    (Track.ofFrames? policy frames).isSome = true ↔ frames ≠ [] := by
  rw [Track.ofFrames?]
  split <;> simp_all

theorem Track.ofFrames?_eq_some_iff (policy : HoldPolicy) (frames : List Frame) (track : Track) :
    Track.ofFrames? policy frames = some track ↔ track.policy = policy ∧ track.frames = frames := by
  rw [Track.ofFrames?]
  split
  next hne =>
    constructor
    · intro h
      cases h
      exact ⟨rfl, rfl⟩
    · rintro ⟨rfl, rfl⟩
      rfl
  next hnil =>
    simp only [reduceCtorEq, false_iff, not_and]
    rintro _ rfl
    exact hnil track.frames_ne_nil

namespace Tileset

/-- The references inside a tileset lead somewhere. -/
structure Closed (t : Tileset) : Prop where
  tileset_eq : ∀ tile ∈ t.tiles, tile.tileset = t.id
  slot_lt : ∀ tile ∈ t.tiles, ∀ slot, tile.animation = some (.inline slot) →
    slot < t.arena.length
  contains_frame : ∀ track ∈ t.arena, ∀ f ∈ track.frames, t.contains f.tile = true

theorem Closed.tile?_tileset {t : Tileset} (ht : t.Closed) {id : TileId} {tile : Tile}
    (h : t.tile? id = some tile) : tile.tileset = t.id :=
  ht.tileset_eq tile (mem_of_tile? h).1

theorem Closed.tile?_slot {t : Tileset} (ht : t.Closed) {id : TileId} {tile : Tile} {slot : Nat}
    (h : t.tile? id = some tile) (hs : tile.animation = some (.inline slot)) :
    slot < t.arena.length :=
  ht.slot_lt tile (mem_of_tile? h).1 slot hs

theorem Closed.contains_of_track? {t : Tileset} (ht : t.Closed) {slot : Nat} {track : Track}
    (h : t.track? slot = some track) (f : Frame) (hf : f ∈ track.frames) :
    t.contains f.tile = true :=
  ht.contains_frame track (List.mem_of_getElem? h) f hf

theorem outline_of_readOutline {tile : TileId} {o : Authored.Object} {outline : Outline}
    (h : readOutline tile o = .ok outline) :
    outline = o.polygon.elim (.rectangle o.width o.height) .polygon := by
  simp only [readOutline] at h
  split at h
  next points hpolygon =>
    split_ifs at h
    cases h
    rw [hpolygon, Option.elim_some]
  next hpolygon =>
    cases h
    rw [hpolygon, Option.elim_none]

theorem readShape_eq_ok_iff (tile : TileId) (tileDrop : Bool) (o : Authored.Object) (shape : Shape) :
    readShape tile tileDrop o = .ok shape ↔
      ∃ properties outline,
        readProperties tile [] o.properties = .ok properties ∧
        readOutline tile o = .ok outline ∧
        shape =
          { name := if o.name = "" then none else some o.name
            origin := ⟨o.x, o.y⟩
            rotation := o.rotation
            outline
            shapeClass := .ofFlags (properties.flag "interactive" || properties.flag "sensor")
              (properties.flag "attack") (properties.bool? "drop") tileDrop
            interactive := properties.flag "interactive" } ∧
        shape.isFinite = true := by
  simp only [readShape, bind_eq_ok_iff, ite_eq_ok_iff]
  constructor
  · rintro ⟨properties, hp, outline, ho, hfinite, rfl⟩
    exact ⟨properties, outline, hp, ho, rfl, hfinite⟩
  · rintro ⟨properties, outline, hp, ho, rfl, hfinite⟩
    exact ⟨properties, hp, outline, ho, hfinite, rfl⟩

theorem readReference_eq_ok_iff (tile : TileId) (properties : Properties)
    (reference : Option String) :
    readReference tile properties = .ok reference ↔
      (properties.find? referenceProperty).bind PropertyValue.file? = reference ∧
        reference ≠ some "" := by
  simp only [readReference]
  split
  next hempty =>
    simp only [hempty, reduceCtorEq, false_iff, not_and, ne_eq, not_not]
    exact Eq.symm
  next hpath =>
    simp only [Except.ok.injEq]
    constructor
    · rintro rfl
      exact ⟨rfl, hpath⟩
    · exact fun h => h.1

theorem readTrack_eq_ok_iff (owned : TileId → Bool) (policy : HoldPolicy) (t : Authored.Tile)
    (track : Option Track) :
    readTrack owned policy t = .ok track ↔
      (∀ f ∈ t.animation, owned f.tile = true) ∧ Track.ofFrames? policy t.animation = track := by
  simp only [readTrack]
  split
  next f hf =>
    have hm := List.mem_of_find?_eq_some hf
    have ho : owned f.tile = false := by simpa using List.find?_some hf
    simp only [reduceCtorEq, false_iff, not_and]
    intro h
    exact absurd (h f hm) (by simp [ho])
  next hf =>
    have h : ∀ f ∈ t.animation, owned f.tile = true := by simpa using hf
    simp only [Except.ok.injEq]
    exact ⟨fun he => ⟨h, he⟩, fun he => he.2⟩

theorem readTile_eq_ok_iff (owned : TileId → Bool) (policy : HoldPolicy) (cell : Size)
    (t : Authored.Tile) (d : Draft) :
    readTile owned policy cell t = .ok d ↔
      ∃ properties shapes reference track,
        readProperties t.id [] t.properties = .ok properties ∧
        t.objects.mapM (readShape t.id (properties.flag "drop")) = .ok shapes ∧
        readReference t.id properties = .ok reference ∧
        readTrack owned policy t = .ok track ∧
        (track.isSome && reference.isSome) = false ∧
        d = { id := t.id
              size := ⟨t.width.getD cell.width, t.height.getD cell.height⟩
              shapes, properties, reference, track } := by
  simp only [readTile, bind_eq_ok_iff]
  constructor
  · rintro ⟨properties, hp, shapes, hs, reference, hr, track, ht, h⟩
    refine ⟨properties, shapes, reference, track, hp, hs, hr, ht, ?_⟩
    split at h
    next => cases h
    next hc =>
      refine ⟨by simpa using hc, ?_⟩
      exact (Except.ok.inj h).symm
  · rintro ⟨properties, shapes, reference, track, hp, hs, hr, ht, hc, rfl⟩
    refine ⟨properties, hp, shapes, hs, reference, hr, track, ht, ?_⟩
    simp only [hc, Bool.false_eq_true, if_false]
    rfl

/-- All that a tile takes from its draft. An inline animation stands for the draft's own track. -/
structure Draft.Becomes (d : Draft) (tile : Tile) : Prop where
  id : tile.id = d.id
  size : tile.size = d.size
  shapes : tile.shapes = d.shapes
  properties : tile.properties = d.properties
  inline : tile.inlineSlot?.isSome = d.track.isSome

theorem assemble_becomes (tileset : String) (slot : Nat) (drafts : List Draft) :
    List.Forall₂ Draft.Becomes drafts (assemble tileset slot drafts).1 := by
  induction drafts generalizing slot with
  | nil => exact .nil
  | cons d drafts ih =>
    cases ht : d.track with
    | some track =>
      simp only [assemble, ht]
      exact .cons ⟨rfl, rfl, rfl, rfl, by simp [Tile.inlineSlot?, ht]⟩ (ih (slot + 1))
    | none =>
      simp only [assemble, ht]
      refine .cons ⟨rfl, rfl, rfl, rfl, ?_⟩ (ih slot)
      cases hr : d.reference <;> simp [Tile.inlineSlot?, ht]

theorem assemble_ids (tileset : String) (slot : Nat) (drafts : List Draft) :
    (assemble tileset slot drafts).1.map (·.id) = drafts.map (·.id) :=
  map_eq_of_forall₂ (assemble_becomes tileset slot drafts) fun _ _ h => h.id

theorem assemble_tileset (tileset : String) (slot : Nat) (drafts : List Draft) :
    ∀ tile ∈ (assemble tileset slot drafts).1, tile.tileset = tileset := by
  induction drafts generalizing slot with
  | nil => simp [assemble]
  | cons d drafts ih =>
    cases ht : d.track with
    | some track => simpa [assemble, ht] using ih (slot + 1)
    | none => simpa [assemble, ht] using ih slot

/-- Tracks and owners stay in step: in one place of both lists stand the track and the id of one
draft. -/
theorem assemble_in_step (tileset : String) (slot : Nat) (drafts : List Draft) :
    List.Forall₂ (fun track owner => ∃ d ∈ drafts, d.track = some track ∧ d.id = owner)
      (assemble tileset slot drafts).2.1 (assemble tileset slot drafts).2.2 := by
  induction drafts generalizing slot with
  | nil => exact .nil
  | cons d drafts ih =>
    have hrest (slot : Nat) := (ih slot).imp fun _ _ ⟨d', hm, hd'⟩ =>
      Exists.intro d' (And.intro (List.mem_cons_of_mem d hm) hd')
    cases ht : d.track with
    | some track =>
      simp only [assemble, ht]
      exact .cons ⟨d, List.mem_cons_self, ht, rfl⟩ (hrest (slot + 1))
    | none =>
      simp only [assemble, ht]
      exact hrest slot

/-- An inline slot, counted from the first one given out, is that of a track which the tile owns. -/
theorem assemble_inline (tileset : String) (slot : Nat) (drafts : List Draft) :
    ∀ tile ∈ (assemble tileset slot drafts).1, ∀ n, tile.animation = some (.inline n) →
      ∃ i, n = slot + i ∧ i < (assemble tileset slot drafts).2.1.length ∧
        (assemble tileset slot drafts).2.2[i]? = some tile.id := by
  induction drafts generalizing slot with
  | nil => simp [assemble]
  | cons d drafts ih =>
    cases ht : d.track with
    | some track =>
      simp only [assemble, ht, List.mem_cons, forall_eq_or_imp]
      refine ⟨?_, ?_⟩
      · intro n hn
        exact ⟨0, by simpa using hn.symm, by simp, by simp⟩
      · -- Behind a tile with a track every slot is one further on, and so is its place.
        intro tile hm n hn
        obtain ⟨i, hi, hlt, howner⟩ := ih (slot + 1) tile hm n hn
        exact ⟨i + 1, by omega, by simpa using hlt, by simpa using howner⟩
    | none =>
      simp only [assemble, ht, List.mem_cons, forall_eq_or_imp]
      refine ⟨?_, ih slot⟩
      -- A tile without a track of its own has a reference or nothing, but no slot.
      intro n hn
      simp [Option.map_eq_some_iff] at hn

/-- A load succeeds when the drafts do, and only assembles them and adds the unlisted cells. -/
theorem load_eq_ok_iff (id : String) (source : Authored.Tileset) (policy : HoldPolicy)
    (t : Tileset) :
    load id source policy = .ok t ↔
      ∃ drafts, readTiles policy source = .ok drafts ∧
        t = { id
              name := source.name
              tileSize := ⟨source.tileWidth, source.tileHeight⟩
              tiles := ((assemble id 0 drafts).1 ++
                (unlistedIds source).map (plainTile id ⟨source.tileWidth, source.tileHeight⟩)).mergeSort
                  (·.id ≤ ·.id)
              arena := (assemble id 0 drafts).2.1
              owners := (assemble id 0 drafts).2.2 } := by
  simp only [load]
  cases readTiles policy source <;> simp [eq_comm]

theorem load_eq_error_iff (id : String) (source : Authored.Tileset) (policy : HoldPolicy)
    (e : Error) :
    load id source policy = .error e ↔
      ∃ flaw, readTiles policy source = .error flaw ∧ e = .malformedTileset id flaw := by
  simp only [load]
  cases readTiles policy source <;> simp [eq_comm]

/-- The drafts are those of the authored tiles by ascending id, which are all different. -/
theorem readTiles_eq_ok_iff (policy : HoldPolicy) (source : Authored.Tileset)
    (drafts : List Draft) :
    readTiles policy source = .ok drafts ↔
      firstRepeated? [] (source.tiles.map (·.id)) = none ∧
        List.Forall₂ (fun t d => readTile (owned source) policy
            ⟨source.tileWidth, source.tileHeight⟩ t = .ok d)
          (source.tiles.mergeSort (·.id ≤ ·.id)) drafts := by
  simp only [readTiles]
  split <;> simp_all [mapM_eq_ok_iff]

theorem readTile_id {owned : TileId → Bool} {policy : HoldPolicy} {cell : Size}
    {t : Authored.Tile} {d : Draft} (h : readTile owned policy cell t = .ok d) : d.id = t.id := by
  obtain ⟨_, _, _, _, _, _, _, _, _, rfl⟩ := (readTile_eq_ok_iff ..).mp h
  rfl

theorem readTile_track {owned : TileId → Bool} {policy : HoldPolicy} {cell : Size}
    {t : Authored.Tile} {d : Draft} (h : readTile owned policy cell t = .ok d) :
    d.track = Track.ofFrames? policy t.animation := by
  obtain ⟨_, _, _, _, _, _, _, htrack, _, rfl⟩ := (readTile_eq_ok_iff ..).mp h
  exact ((readTrack_eq_ok_iff ..).mp htrack).2.symm

theorem readTile_owned {owned : TileId → Bool} {policy : HoldPolicy} {cell : Size}
    {t : Authored.Tile} {d : Draft} (h : readTile owned policy cell t = .ok d) {track : Track}
    (ht : d.track = some track) : ∀ f ∈ track.frames, owned f.tile = true := by
  obtain ⟨_, _, _, read, _, _, _, hr, _, rfl⟩ := (readTile_eq_ok_iff ..).mp h
  obtain ⟨ho, hf⟩ := (readTrack_eq_ok_iff ..).mp hr
  rw [show read = some track from ht, Track.ofFrames?] at hf
  split at hf
  · cases hf
    exact ho
  · cases hf

theorem load_id {id : String} {source : Authored.Tileset} {policy : HoldPolicy} {t : Tileset}
    (h : load id source policy = .ok t) : t.id = id := by
  obtain ⟨drafts, _, rfl⟩ := (load_eq_ok_iff ..).mp h
  rfl

theorem parse_id {id text : String} {policy : HoldPolicy} {t : Tileset}
    (h : parse id text policy = .ok t) : t.id = id := by
  simp only [parse] at h
  split at h
  · exact load_id h
  · cases h

/-! ### The order of the tiles -/

/-- Keys that are all different stand in strictly ascending order once they are sorted. -/
theorem mergeSort_ascending {α : Type} {key : α → TileId} {xs : List α} (h : (xs.map key).Nodup) :
    ((xs.mergeSort fun a b => key a ≤ key b).map key).Pairwise (· < ·) := by
  let le (a b : α) : Bool := key a ≤ key b
  have htrans (a b c : α) (hab : le a b = true) (hbc : le b c = true) : le a c = true := by
    simp only [le, decide_eq_true_eq] at hab hbc ⊢
    exact UInt32.le_trans hab hbc
  have htotal (a b : α) : (le a b || le b a) = true := by
    simpa [le] using UInt32.le_total (key a) (key b)
  have hle : ((xs.mergeSort le).map key).Pairwise (· ≤ ·) :=
    List.pairwise_map.mpr ((List.pairwise_mergeSort htrans htotal xs).imp of_decide_eq_true)
  have hne : ((xs.mergeSort le).map key).Nodup :=
    ((List.mergeSort_perm xs le).map key).nodup_iff.mpr h
  exact (hle.and hne).imp fun hab => UInt32.lt_of_le_of_ne hab.1 hab.2

/-- No id repeats an earlier one or one of those seen before, if none is reported. -/
theorem nodup_of_firstRepeated? {seen ids : List TileId} (h : firstRepeated? seen ids = none) :
    ids.Nodup ∧ ∀ id ∈ ids, id ∉ seen := by
  induction ids generalizing seen with
  | nil => simp
  | cons id ids ih =>
    rw [firstRepeated?] at h
    split at h
    next => cases h
    next hid =>
      obtain ⟨hnodup, hseen⟩ := ih h
      simp only [List.mem_cons, not_or] at hseen
      refine ⟨List.nodup_cons.mpr ⟨fun hm => (hseen id hm).1 rfl, hnodup⟩, ?_⟩
      rw [List.forall_mem_cons]
      exact ⟨hid, fun other hm => (hseen other hm).2⟩

theorem mem_unlistedIds (source : Authored.Tileset) (id : TileId) :
    id ∈ unlistedIds source ↔
      id < source.gridTileCount ∧ ∀ listed ∈ source.tiles, listed.id ≠ id := by
  simp only [unlistedIds, List.mem_filter, List.mem_map, List.mem_range, Bool.not_eq_true',
    List.any_eq_false, decide_eq_true_eq]
  refine and_congr_left' ⟨?_, fun h => ⟨id.toNat, h, id.ofNat_toNat⟩⟩
  rintro ⟨n, hn, rfl⟩
  rwa [UInt32.lt_iff_toNat_lt,
    UInt32.toNat_ofNat_of_lt' (Nat.lt_trans hn source.gridTileCount.toNat_lt)]

theorem nodup_unlistedIds (source : Authored.Tileset) : (unlistedIds source).Nodup := by
  refine List.Nodup.filter _ (List.Nodup.map_on ?_ List.nodup_range)
  intro m hm n hn heq
  have hword {n : Nat} (hn : n ∈ List.range source.gridTileCount.toNat) :
      (UInt32.ofNat n).toNat = n :=
    UInt32.toNat_ofNat_of_lt' (Nat.lt_trans (List.mem_range.mp hn) source.gridTileCount.toNat_lt)
  rw [← hword hm, ← hword hn, heq]

section
variable {id : String} {source : Authored.Tileset} {policy : HoldPolicy} {t : Tileset}

/-- The tiles are the listed ones and the unlisted cells. -/
theorem load_ids_perm (h : load id source policy = .ok t) :
    (source.tiles.map (·.id)).Nodup ∧
      (t.tiles.map (·.id)).Perm (source.tiles.map (·.id) ++ unlistedIds source) := by
  obtain ⟨drafts, hd, rfl⟩ := (load_eq_ok_iff ..).mp h
  obtain ⟨hrepeated, hf⟩ := (readTiles_eq_ok_iff ..).mp hd
  refine ⟨(nodup_of_firstRepeated? hrepeated).1, ?_⟩
  have hids : drafts.map (·.id) = (source.tiles.mergeSort (·.id ≤ ·.id)).map (·.id) :=
    map_eq_of_forall₂ hf fun _ _ => readTile_id
  have hplain : ((unlistedIds source).map (plainTile id ⟨source.tileWidth, source.tileHeight⟩)).map
      (·.id) = unlistedIds source := by
    rw [List.map_map]
    exact List.map_id _
  refine ((List.mergeSort_perm ..).map _).trans ?_
  rw [List.map_append, assemble_ids, hids, hplain]
  exact ((List.mergeSort_perm ..).map _).append_right _

theorem load_ascending (h : load id source policy = .ok t) : t.Ascending := by
  obtain ⟨hlisted, hperm⟩ := load_ids_perm h
  have hnodup : (t.tiles.map (·.id)).Nodup := by
    rw [hperm.nodup_iff, List.nodup_append']
    refine ⟨hlisted, nodup_unlistedIds source, ?_⟩
    intro tile hm hunlisted
    obtain ⟨listed, hlisted, rfl⟩ := List.mem_map.mp hm
    exact ((mem_unlistedIds ..).mp hunlisted).2 listed hlisted rfl
  obtain ⟨drafts, _, rfl⟩ := (load_eq_ok_iff ..).mp h
  exact mergeSort_ascending (((List.mergeSort_perm ..).map _).nodup_iff.mp hnodup)

/-- A description owns what the tileset contains. -/
theorem load_contains_iff (h : load id source policy = .ok t) (tile : TileId) :
    t.contains tile = true ↔ owned source tile = true := by
  rw [(load_ascending h).contains_iff, (load_ids_perm h).2.mem_iff, List.mem_append, mem_unlistedIds,
    List.mem_map]
  simp only [owned, Bool.or_eq_true, decide_eq_true_eq, List.any_eq_true]
  constructor
  · rintro (hlisted | ⟨hgrid, _⟩)
    · exact Or.inr hlisted
    · exact Or.inl hgrid
  · intro howned
    by_cases hlisted : ∃ listed ∈ source.tiles, listed.id = tile
    · exact Or.inl hlisted
    · refine Or.inr ⟨howned.resolve_right hlisted, ?_⟩
      simpa using hlisted

/-- A tile is a listed one, assembled from its draft, or an unlisted cell. -/
theorem mem_tiles_of_load {drafts : List Draft} (h : load id source policy = .ok t)
    (hd : readTiles policy source = .ok drafts) (tile : Tile) :
    tile ∈ t.tiles ↔ tile ∈ (assemble id 0 drafts).1 ∨
      ∃ n ∈ unlistedIds source, plainTile id ⟨source.tileWidth, source.tileHeight⟩ n = tile := by
  obtain ⟨drafts', hd', rfl⟩ := (load_eq_ok_iff ..).mp h
  obtain rfl := Except.ok.inj (hd.symm.trans hd')
  rw [List.mem_mergeSort, List.mem_append, List.mem_map]

theorem load_closed (h : load id source policy = .ok t) : t.Closed := by
  have hc := load_contains_iff h
  obtain ⟨drafts, hd, ht⟩ := (load_eq_ok_iff ..).mp h
  obtain ⟨_, hf⟩ := (readTiles_eq_ok_iff ..).mp hd
  have hmem := mem_tiles_of_load h hd
  subst ht
  refine ⟨?_, ?_, ?_⟩
  · intro tile hm
    rcases (hmem tile).mp hm with hlisted | ⟨_, _, rfl⟩
    · exact assemble_tileset id 0 drafts tile hlisted
    · rfl
  · -- The slots count from zero, so a slot is itself a place among the tracks.
    intro tile hm slot hs
    rcases (hmem tile).mp hm with hlisted | ⟨_, _, rfl⟩
    · obtain ⟨i, hi, hlt, _⟩ := assemble_inline id 0 drafts tile hlisted slot hs
      rwa [hi, Nat.zero_add]
    · cases hs
  · -- A track comes from the draft of an authored tile, whose frames were checked.
    intro track hm f hfr
    obtain ⟨_, _, d, hdm, htrack, _⟩ := exists_mem_of_forall₂ (assemble_in_step id 0 drafts).flip hm
    obtain ⟨authored, _, hr⟩ := exists_mem_of_forall₂ hf hdm
    exact (hc f.tile).mpr (readTile_owned hr htrack f hfr)

end

end Tileset

end TileWorld
