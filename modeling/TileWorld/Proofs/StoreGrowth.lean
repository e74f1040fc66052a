import Mathlib.Data.List.Nodup
import TileWorld.Proofs.LoadedTileset
import TileWorld.World.Entity

/-! Publishing only adds to a store: what was found once is found for good. In a store of loaded
tilesets the track of every tile that starts is there, and so are the tiles that its frames show. -/
namespace TileWorld

theorem Tileset.ofFile_id {files : FileView} {root path : String} {policy : HoldPolicy}
    {t : Tileset} (h : ofFile files root path policy = .ok t) :
    t.id = Path.tilesetId root path := by
  obtain ⟨text, -, hp⟩ := (bind_eq_ok_iff ..).mp h
  exact parse_id hp

namespace Store

theorem ext_tilesets {s s' : Store} (h : s.tilesets = s'.tilesets) : s = s' := by
  cases s
  cases s'
  simpa using h

theorem find?_id {s : Store} {id : String} {t : Tileset} (h : s.find? id = some t) : t.id = id := by
  simpa using List.find?_some h

theorem find?_mem {s : Store} {id : String} {t : Tileset} (h : s.find? id = some t) :
    t ∈ s.tilesets :=
  List.mem_of_find?_eq_some h

theorem find?_eq_some_iff (s : Store) (id : String) (t : Tileset) :
    s.find? id = some t ↔ t ∈ s.tilesets ∧ t.id = id := by
  constructor
  · intro h
    exact ⟨find?_mem h, find?_id h⟩
  · rintro ⟨hm, rfl⟩
    have hfound : (s.find? t.id).isSome = true := by
      simpa [find?] using ⟨t, hm, rfl⟩
    obtain ⟨u, hu⟩ := Option.isSome_iff_exists.mp hfound
    -- No two tilesets share an id, so the one that is found is `t`.
    rw [hu, List.inj_on_of_nodup_map s.nodup (find?_mem hu) hm (find?_id hu)]

theorem contains_eq (s : Store) (id : String) : s.contains id = (s.find? id).isSome := by
  rw [Bool.eq_iff_iff]
  simp [contains, find?]

theorem find?_eq_none_iff (s : Store) (id : String) : s.find? id = none ↔ s.contains id = false := by
  rw [contains_eq, Option.isSome_eq_false_iff, Option.isNone_iff_eq_none]

theorem lookup_eq_ok_iff (s : Store) (tileset : String) (id : TileId) (tile : Tile) :
    s.lookup tileset id = .ok tile ↔
      ∃ t, s.find? tileset = some t ∧ t.tile? id = some tile := by
  simp only [lookup, Store.tileset, bind_eq_ok_iff]
  cases s.find? tileset <;> simp [Tileset.lookup_eq_ok_iff]

theorem track?_eq_some_iff (s : Store) (ref : TrackRef) (track : Track) :
    s.track? ref = some track ↔
      ∃ t, s.find? ref.tileset = some t ∧ t.track? ref.slot = some track := by
  simp only [track?, Option.bind_eq_some_iff]

/-- The second store has every tileset of the first. -/
def Grows (s s' : Store) : Prop :=
  ∀ id t, s.find? id = some t → s'.find? id = some t

theorem Grows.refl (s : Store) : s.Grows s :=
  fun _ _ h => h

theorem Grows.trans {s s' s'' : Store} (h : s.Grows s') (h' : s'.Grows s'') : s.Grows s'' :=
  fun id t ht => h' id t (h id t ht)

theorem grows_of_isPrefix {s s' : Store} (h : s.tilesets <+: s'.tilesets) : s.Grows s' := by
  intro id t ht
  obtain ⟨hm, hid⟩ := (find?_eq_some_iff ..).mp ht
  exact (find?_eq_some_iff ..).mpr ⟨h.subset hm, hid⟩

theorem Grows.lookup {s s' : Store} (h : s.Grows s') {tileset : String} {id : TileId} {tile : Tile}
    (hl : s.lookup tileset id = .ok tile) : s'.lookup tileset id = .ok tile := by
  obtain ⟨t, ht, hi⟩ := (lookup_eq_ok_iff ..).mp hl
  exact (lookup_eq_ok_iff ..).mpr ⟨t, h _ _ ht, hi⟩

theorem Grows.track? {s s' : Store} (h : s.Grows s') {ref : TrackRef} {track : Track}
    (hr : s.track? ref = some track) : s'.track? ref = some track := by
  obtain ⟨t, ht, hi⟩ := (track?_eq_some_iff ..).mp hr
  exact (track?_eq_some_iff ..).mpr ⟨t, h _ _ ht, hi⟩

/-- A tileset is published behind the others, unless its id is taken: then nothing changes. -/
theorem publish_cases (s : Store) (t : Tileset) :
    (s.contains t.id = true ∧ s.publish t = (.error (.duplicateTileset t.id), s)) ∨
      (s.contains t.id = false ∧
        ∃ s', s.publish t = (.ok (), s') ∧ s'.tilesets = s.tilesets ++ [t]) := by
  simp only [publish]
  split
  next hc => exact Or.inl ⟨hc, rfl⟩
  next hc => exact Or.inr ⟨by simpa using hc, _, rfl, rfl⟩

theorem insert_eq_ok_iff_publish (s : Store) (t : Tileset) (s' : Store) :
    s.insert t = .ok s' ↔ s.publish t = (.ok (), s') := by
  rw [insert, map_eq_ok_iff]
  constructor
  · rintro ⟨r, hr, rfl⟩
    exact (onSuccess_eq_ok_iff ..).mp hr
  · intro h
    exact ⟨((), s'), (onSuccess_eq_ok_iff ..).mpr h, rfl⟩

theorem insert_eq_error_iff_publish (s : Store) (t : Tileset) (e : Error) :
    s.insert t = .error e ↔ (s.publish t).1 = .error e := by
  rw [insert, map_eq_error_iff, onSuccess_eq_error_iff]

theorem insert_eq_ok_iff (s : Store) (t : Tileset) (s' : Store) :
    s.insert t = .ok s' ↔ s.contains t.id = false ∧ s'.tilesets = s.tilesets ++ [t] := by
  rw [insert_eq_ok_iff_publish]
  rcases s.publish_cases t with ⟨hc, h⟩ | ⟨hc, s'', h, hs''⟩
  · simp [h, hc]
  · simp only [h, hc, Prod.mk.injEq, true_and]
    constructor
    · rintro rfl
      exact hs''
    · intro hs'
      exact ext_tilesets (hs''.trans hs'.symm)

theorem exists_insert {s : Store} {t : Tileset} (h : s.contains t.id = false) :
    ∃ s', s.insert t = .ok s' := by
  rcases s.publish_cases t with ⟨hc, -⟩ | ⟨-, s', hs', -⟩
  · rw [h] at hc
    cases hc
  · exact ⟨s', (insert_eq_ok_iff_publish ..).mpr hs'⟩

/-- What is offered is published, or else the store that comes back is the one that was there. -/
theorem offer_cases (s : Store) (loaded : Except Error Tileset) :
    (∃ e, s.offer loaded = (.error e, s) ∧ loaded >>= s.insert = .error e) ∨
      ∃ t s', loaded = .ok t ∧ s.offer loaded = (.ok (), s') ∧ s.insert t = .ok s' := by
  cases loaded with
  | error e => exact Or.inl ⟨e, rfl, rfl⟩
  | ok t =>
    rcases s.publish_cases t with ⟨-, h⟩ | ⟨-, s', h, -⟩
    · exact Or.inl ⟨_, h, (insert_eq_error_iff_publish ..).mpr (congrArg Prod.fst h)⟩
    · exact Or.inr ⟨t, s', rfl, h, (insert_eq_ok_iff_publish ..).mpr h⟩

theorem find?_insert {s s' : Store} {t : Tileset} (h : s.insert t = .ok s') (id : String) :
    s'.find? id = if t.id = id then some t else s.find? id := by
  obtain ⟨hc, hs⟩ := (insert_eq_ok_iff ..).mp h
  simp only [find?, hs, List.find?_append, List.find?_singleton, decide_eq_true_eq]
  by_cases hid : t.id = id
  · -- The id was free, so nothing stands before the new tileset.
    have hn : s.tilesets.find? (·.id = id) = none := by
      simpa [contains, hid] using hc
    simp [hn, hid]
  · simp [hid]

theorem insert_grows {s s' : Store} {t : Tileset} (h : s.insert t = .ok s') : s.Grows s' :=
  grows_of_isPrefix ⟨[t], ((insert_eq_ok_iff ..).mp h).2.symm⟩

/-- Publishing tilesets that were loaded, one after the other. -/
inductive Published (s : Store) : Store → Prop where
  | refl : Published s s
  | insert {s' s'' : Store} {id : String} {source : Authored.Tileset} {policy : HoldPolicy}
      {t : Tileset} (earlier : Published s s') (load : Tileset.load id source policy = .ok t)
      (insert : s'.insert t = .ok s'') : Published s s''

theorem Published.trans {s s' s'' : Store} (h : s.Published s') (h' : s'.Published s'') :
    s.Published s'' := by
  induction h' with
  | refl => exact h
  | insert _ hl hi ih => exact ih.insert hl hi

theorem Published.isPrefix {s s' : Store} (h : s.Published s') : s.tilesets <+: s'.tilesets := by
  induction h with
  | refl => exact List.prefix_rfl
  | insert _ _ hi ih => exact ih.trans ⟨[_], ((insert_eq_ok_iff ..).mp hi).2.symm⟩

/-- A store that is what it was has been the same all the time. -/
theorem Published.antisymm {s s' : Store} (h : s.Published s') (h' : s'.Published s) : s = s' :=
  ext_tilesets (h.isPrefix.eq_of_length_le h'.isPrefix.length_le)

theorem Published.grows {s s' : Store} (h : s.Published s') : s.Grows s' := by
  induction h with
  | refl => exact Grows.refl s
  | insert _ _ hi ih => exact ih.trans (insert_grows hi)

/-- What loading makes sure of holds of every tileset of the store. -/
theorem Published.forall_tilesets {s s' : Store} {P : Tileset → Prop} (h : s.Published s')
    (load : ∀ id source policy t, Tileset.load id source policy = .ok t → P t)
    (hs : ∀ t ∈ s.tilesets, P t) : ∀ t ∈ s'.tilesets, P t := by
  induction h with
  | refl => exact hs
  | insert _ hl hi ih =>
    obtain ⟨_, he⟩ := (insert_eq_ok_iff ..).mp hi
    intro t ht
    rw [he, List.mem_append, List.mem_singleton] at ht
    rcases ht with ht | rfl
    · exact ih t ht
    · exact load _ _ _ _ hl

theorem offer_published (s : Store) {loaded : Except Error Tileset}
    (h : ∀ t, loaded = .ok t → ∃ id source policy, Tileset.load id source policy = .ok t) :
    s.Published (s.offer loaded).2 := by
  rcases s.offer_cases loaded with ⟨_, ho, -⟩ | ⟨t, s', ht, ho, hi⟩
  · rw [ho]
    exact .refl
  · obtain ⟨_, _, _, hl⟩ := h t ht
    rw [ho]
    exact Published.refl.insert hl hi

theorem exists_load_of_parse {id text : String} {policy : HoldPolicy} {t : Tileset}
    (h : Tileset.parse id text policy = .ok t) :
    ∃ id source policy, Tileset.load id source policy = .ok t := by
  simp only [Tileset.parse] at h
  split at h
  next source _ => exact ⟨id, source, policy, h⟩
  next => cases h

theorem publishText_published (s : Store) (id text : String) (policy : HoldPolicy) :
    s.Published (s.publishText id text policy).2 :=
  s.offer_published fun _ => exists_load_of_parse

theorem publishFile_published (s : Store) (files : FileView) (root path : String)
    (policy : HoldPolicy) : s.Published (s.publishFile files root path policy).2 := by
  apply offer_published
  intro t ht
  obtain ⟨text, -, hp⟩ := (bind_eq_ok_iff ..).mp ht
  exact exists_load_of_parse hp

theorem loadFiles_published (s : Store) (files : FileView) (root : String) (policy : HoldPolicy)
    (paths : List String) : s.Published (s.loadFiles files root policy paths).2 := by
  induction paths generalizing s with
  | nil => exact .refl
  | cons path paths ih =>
    have hfirst := s.publishFile_published files root path policy
    simp only [loadFiles]
    split
    next e s' h =>
      rw [h] at hfirst
      exact hfirst
    next id s' h =>
      rw [h] at hfirst
      exact hfirst.trans (ih s')

/-- A store of closed tilesets, such as loading gives. -/
def Closed (s : Store) : Prop :=
  ∀ t ∈ s.tilesets, t.Closed

theorem Published.closed {s s' : Store} (h : s.Published s') (hs : s.Closed) : s'.Closed :=
  h.forall_tilesets (fun _ _ _ _ => Tileset.load_closed) hs

theorem closed_empty : empty.Closed := by
  intro t ht
  cases ht

theorem Closed.find? {s : Store} (hs : s.Closed) {id : String} {t : Tileset}
    (h : s.find? id = some t) : t.Closed :=
  hs t (find?_mem h)

/-- What is shown by a frame of a track is a tile of the tileset that authored the track. -/
theorem Closed.lookup_frame {s : Store} (hs : s.Closed) {ref : TrackRef} {track : Track}
    (h : s.track? ref = some track) {f : Frame} (hf : f ∈ track.frames) :
    ∃ tile, s.lookup ref.tileset f.tile = .ok tile := by
  obtain ⟨t, ht, htr⟩ := (track?_eq_some_iff ..).mp h
  have hc := (hs.find? ht).contains_of_track? htr f hf
  obtain ⟨tile, hl⟩ := (Tileset.contains_iff_lookup ..).mp hc
  exact ⟨tile, (lookup_eq_ok_iff ..).mpr ⟨t, ht, (Tileset.lookup_eq_ok_iff ..).mp hl⟩⟩

/-- A reference resolves to the first track of a published tileset that has one. -/
theorem resolveReference_track {s : Store} {tile : Tile} {ref : TrackRef}
    (h : s.resolveReference tile = .ok ref) : ∃ track, s.track? ref = some track := by
  simp only [resolveReference] at h
  split at h
  next => cases h
  next reference _ =>
    split at h
    next => cases h
    next target htarget =>
      split at h
      next => cases h
      next slot hslot =>
        cases h
        -- The candidate it was found by is the id of the target, and its first track is in slot 0.
        obtain ⟨id, _, hid⟩ := List.exists_of_findSome?_eq_some htarget
        rw [Tileset.primarySlot?] at hslot
        split at hslot
        next => cases hslot
        next hne =>
          cases hslot
          obtain ⟨track, rest, htr⟩ := List.exists_cons_of_ne_nil (by simpa using hne)
          refine ⟨track, (track?_eq_some_iff ..).mpr ⟨target, ?_, ?_⟩⟩
          · rw [find?_id hid, hid]
          · simp [Tileset.track?, htr]

/-- The track that a looked-up tile plays is there. -/
theorem Closed.resolve_track {s : Store} (hs : s.Closed) {tileset : String} {id : TileId}
    {tile : Tile} (hl : s.lookup tileset id = .ok tile) {ref : TrackRef}
    (h : s.resolve tile = .ok (some ref)) : ∃ track, s.track? ref = some track := by
  simp only [resolve] at h
  split at h
  next => cases h
  next slot ha =>
    cases h
    obtain ⟨t, ht, hi⟩ := (lookup_eq_ok_iff ..).mp hl
    have hc := hs.find? ht
    have hslot : slot < t.arena.length := hc.tile?_slot hi ha
    refine ⟨t.arena[slot], (track?_eq_some_iff ..).mpr ⟨t, ?_, ?_⟩⟩
    · rw [hc.tile?_tileset hi, find?_id ht, ht]
    · exact List.getElem?_eq_getElem hslot
  next =>
    obtain ⟨r, hr, he⟩ := (map_eq_ok_iff ..).mp h
    cases he
    exact resolveReference_track hr

end Store

end TileWorld
