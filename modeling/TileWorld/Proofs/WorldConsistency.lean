import Mathlib
import TileWorld.Proofs.WorldRun

/-! What entities show and play is published. The check of frames at loading, the rule that nothing
published is ever replaced, and the resets of cursors by spawns and switches make this one
invariant, which every action keeps. -/
namespace TileWorld

namespace Store

theorem Closed.lookup_self {s : Store} (hs : s.Closed) {tileset : String} {id : TileId} {tile : Tile}
    (h : s.lookup tileset id = .ok tile) : tile.tileset = tileset ∧ tile.id = id := by
  obtain ⟨t, ht, hi⟩ := (lookup_eq_ok_iff ..).mp h
  exact ⟨((hs.find? ht).tile?_tileset hi).trans (find?_id ht), (Tileset.mem_of_tile? hi).2⟩

/-- What a tile first shows is found, and a cursor of its animation stands on that tile. -/
theorem Closed.start {s : Store} (hs : s.Closed) {tileset : String} {id : TileId} {tile : Tile}
    (hl : s.lookup tileset id = .ok tile) {shown : TileRef} {cursor : Option Cursor}
    (h : s.start tile = .ok (shown, cursor)) :
    (∃ source, s.lookup shown.tileset shown.tile = .ok source) ∧
      ∀ c, cursor = some c → ∃ track frame, s.track? c.track = some track ∧
        track.frame? c.frame = some frame ∧ shown = ⟨c.track.tileset, frame.tile⟩ := by
  rcases (start_eq_ok_iff ..).mp h with ⟨_, rfl, rfl⟩ | ⟨ref, hr, rfl, rfl⟩
  · obtain ⟨htileset, hid⟩ := hs.lookup_self hl
    refine ⟨⟨tile, ?_⟩, ?_⟩
    · -- A static tile shows itself, under the names that it was found by.
      rw [htileset, hid]
      exact hl
    · intro c hc
      cases hc
  · obtain ⟨track, htrack⟩ := hs.resolve_track hl hr
    obtain ⟨f, hf, hfirst⟩ := track.frame?_zero
    have hshown : ((s.track? ref).map Track.firstTile).getD tile.id = f.tile := by
      rw [htrack, Option.map_some, Option.getD_some, hfirst]
    rw [hshown]
    refine ⟨hs.lookup_frame htrack (List.mem_of_getElem? hf), ?_⟩
    intro c hc
    cases hc
    exact ⟨track, f, htrack, hf, rfl⟩

end Store

namespace Entity

/-- The tile shown is found, and a cursor stands on a frame of a published track that shows it. -/
structure Consistent (s : Store) (e : Entity) : Prop where
  tile : ∃ tile source, e.tile = some tile ∧
    s.lookup tile.value.tileset tile.value.tile = .ok source
  cursor : ∀ c, e.cursor = some c → ∃ track frame, s.track? c.track = some track ∧
    track.frame? c.frame = some frame ∧
    e.tile.map (·.value) = some ⟨c.track.tileset, frame.tile⟩

variable {s : Store} {e e' : Entity}

theorem Consistent.grows {s' : Store} (h : e.Consistent s) (hg : s.Grows s') :
    e.Consistent s' := by
  obtain ⟨tile, source, ht, hl⟩ := h.tile
  refine ⟨⟨tile, source, ht, hg.lookup hl⟩, ?_⟩
  intro c hc
  obtain ⟨track, frame, htrack, hframe, hshown⟩ := h.cursor c hc
  exact ⟨track, frame, hg.track? htrack, hframe, hshown⟩

/-- Only the value of the tile and the cursor count. -/
theorem Consistent.congr (h : e.Consistent s) (ha : e'.Alike e) : e'.Consistent s := by
  obtain ⟨tile, source, htile, hl⟩ := h.tile
  have ht : e'.tile.map (·.value) = some tile.value := by rw [ha.tile, htile, Option.map_some]
  obtain ⟨tile', htile', hv⟩ := Option.map_eq_some_iff.mp ht
  refine ⟨⟨tile', source, htile', by rw [hv]; exact hl⟩, ?_⟩
  intro c hcur
  obtain ⟨track, frame, htrack, hframe, hshown⟩ := h.cursor c (ha.cursor ▸ hcur)
  exact ⟨track, frame, htrack, hframe, ha.tile.trans hshown⟩

theorem spawn_consistent (hs : s.Closed) {tileset : String} {tile : TileId} {place : Placement}
    (h : spawn s tileset tile place = .ok e) : e.Consistent s := by
  obtain ⟨source, shown, cursor, hl, hstart, rfl⟩ := (spawn_eq_ok_iff ..).mp h
  obtain ⟨⟨target, ht⟩, hc⟩ := hs.start hl hstart
  refine ⟨⟨_, target, rfl, ht⟩, ?_⟩
  intro c hcur
  obtain ⟨track, frame, htrack, hframe, hshown⟩ := hc c hcur
  exact ⟨track, frame, htrack, hframe, congrArg some hshown⟩

theorem Consistent.select (hs : s.Closed) (h : e.Consistent s) : (e.select s).Consistent s := by
  cases hw : e.switch? s with
  | none => rwa [select_of_no_switch hw]
  | some w =>
    rw [select_of_switch? hw]
    obtain ⟨controller, tile, signals, source, _, ht, _, _, _, hl, hstart⟩ :=
      (switch?_eq_some_iff ..).mp hw
    obtain ⟨⟨target, htarget⟩, hc⟩ := hs.start hl hstart
    -- Whether the update writes or not, the value is what the target starts with.
    have htile : (w.apply e).tile = some (tile.update w.shown) := by rw [Switch.apply, ht]; rfl
    refine ⟨⟨_, target, htile, by rwa [Marked.update_value]⟩, ?_⟩
    intro c hcur
    obtain ⟨track, frame, htrack, hframe, hshown⟩ := hc c hcur
    refine ⟨track, frame, htrack, hframe, ?_⟩
    rw [htile, Option.map_some, Marked.update_value, hshown]

/-- Playback moves the cursor inside its track and shows the frame that it reaches. -/
theorem Consistent.play (hs : s.Closed) (h : e.Consistent s) (deltaMs : UInt32) :
    (e.play s deltaMs).1.Consistent s := by
  cases hc : e.cursor with
  | none => rwa [play_of_no_cursor hc]
  | some c =>
    obtain ⟨tile, _, ht, _⟩ := h.tile
    obtain ⟨track, _, htrack, _, _⟩ := h.cursor c hc
    -- The cursor stays inside its track, so the default tile of playback is never shown.
    obtain ⟨f, hf⟩ := Track.frame?_of_lt (c.advance_frame_lt track deltaMs)
    have htile : (c.advance track deltaMs).tile? track = some f.tile := by
      simp [Cursor.tile?, Cursor.frame?, hf]
    obtain ⟨source, hl⟩ := hs.lookup_frame htrack (List.mem_of_getElem? hf)
    rw [play_eq hc ht htrack]
    simp only [htile, Option.getD_some, Cursor.advance_track]
    refine ⟨⟨_, source, rfl, by rwa [Marked.update_value]⟩, ?_⟩
    intro c' hc'
    cases hc'
    exact ⟨track, f, by simpa using htrack, hf, by simp⟩

theorem Consistent.pass (hs : s.Closed) (h : e.Consistent s) (deltaMs : UInt32) :
    (e.pass s deltaMs).1.Consistent s :=
  ((h.select hs).play hs deltaMs).congr (e.pass_alike s deltaMs)

theorem Edit.consistent {w : World} (hs : w.store.Closed) (hedit : Edit w e e')
    (h : e.Consistent w.store) : e'.Consistent w.store := by
  cases hedit with
  | keep | attach | signal | move | turn => exact ⟨h.tile, h.cursor⟩
  | pass ms => exact h.pass hs (w.tickMs ms)

end Entity

namespace World

theorem run_entity_consistent (settings : Settings) (actions : List Action) :
    ∀ i e, ((ofSettings settings).run actions).entity? i = some e →
      e.Consistent ((ofSettings settings).run actions).store := by
  apply run_invariant
  · intro s s' e hg h
    exact h.grows hg
  · intro s e tileset tile place hs h
    exact Entity.spawn_consistent hs h
  · intro w e e' hs hedit h
    exact hedit.consistent hs h
  · exact Store.closed_empty
  · intro i e he
    simp [entity?, ofSettings] at he

theorem run_closed (settings : Settings) (actions : List Action) :
    ((ofSettings settings).run actions).store.Closed :=
  (run_published _ actions).closed Store.closed_empty

/-- In every world that a run reaches, all that entities show is found, and every cursor stands on a
frame of a published track, the one whose tile is shown. So in no tick does playback miss the track
of a cursor, or the shapes the tile that they belong to. -/
theorem run_consistent (settings : Settings) (actions : List Action) :
    let w := (ofSettings settings).run actions
    (∀ i e, w.entity? i = some e →
      ∃ tile source, e.tile = some tile ∧
        w.store.lookup tile.value.tileset tile.value.tile = .ok source ∧
        ∀ c, e.cursor = some c → ∃ track frame, w.store.track? c.track = some track ∧
          c.frame < track.length ∧ track.frame? c.frame = some frame ∧
          tile.value = ⟨c.track.tileset, frame.tile⟩) ∧
    ∀ ms i e, w.entity? i = some e →
      let selected := e.select w.store
      let played := (selected.play w.store (w.tickMs ms)).1
      (∀ c, selected.cursor = some c → w.store.track? c.track ≠ none) ∧
      ∃ tile source, played.tile = some tile ∧
        w.store.lookup tile.value.tileset tile.value.tile = .ok source := by
  intro w
  have hs := run_closed settings actions
  have hw := run_entity_consistent settings actions
  refine ⟨?_, ?_⟩
  · intro i e he
    obtain ⟨tile, source, ht, hl⟩ := (hw i e he).tile
    refine ⟨tile, source, ht, hl, ?_⟩
    intro c hc
    obtain ⟨track, frame, htrack, hframe, hshown⟩ := (hw i e he).cursor c hc
    rw [ht] at hshown
    exact ⟨track, frame, htrack, Track.lt_of_frame? hframe, hframe, Option.some.inj hshown⟩
  · -- Inside a tick the same invariant holds after the controller's part, and after playback.
    intro ms i e he
    have hsel := (hw i e he).select hs
    refine ⟨?_, (hsel.play hs (w.tickMs ms)).tile⟩
    intro c hc
    obtain ⟨track, _, htrack, _⟩ := hsel.cursor c hc
    simp [w, htrack]

/-- A lamp that has flickered on to the second of its tiles, on which playback stands and which is
found. -/
theorem run_consistent_lamp :
    let source : Authored.Tileset :=
      ⟨"lamp", 16, 16, some 2, none, [⟨0, none, none, [], [], [⟨0, 100⟩, ⟨1, 50⟩]⟩]⟩
    let w := (ofSettings {}).run
      [.insert "lamp.json" source {}, .spawn "lamp.json" 0 default, .tick 120]
    ∃ e track frame found, w.entity? 0 = some e ∧ e.cursor = some ⟨⟨"lamp.json", 0⟩, 1, 20, false⟩ ∧
      e.tile.map (·.value) = some ⟨"lamp.json", 1⟩ ∧ w.store.lookup "lamp.json" 1 = .ok found ∧
      w.store.track? ⟨"lamp.json", 0⟩ = some track ∧ track.frame? 1 = some frame ∧ frame.tile = 1 := by
  intro source w
  let lamp : Tile := ⟨"lamp.json", 0, ⟨16, 16⟩, [], [], some (.inline 0)⟩
  let track : Track := ⟨{}, [⟨0, 100⟩, ⟨1, 50⟩], by simp⟩
  let t : Tileset :=
    ⟨"lamp.json", "lamp", ⟨16, 16⟩, [lamp, Tileset.plainTile "lamp.json" ⟨16, 16⟩ 1], [track], [0]⟩
  have hload : Tileset.load "lamp.json" source {} = .ok t := by cbv
  have hw : w = { ofSettings {} with store := (Store.empty.offer (.ok t)).2 }.run
      [.spawn "lamp.json" 0 default, .tick 120] :=
    congrArg (fun loaded => { ofSettings {} with store := (Store.empty.offer loaded).2 }.run
      [.spawn "lamp.json" 0 default, .tick 120]) hload
  have hcursor : (w.entity? 0).bind (·.cursor) = some ⟨⟨"lamp.json", 0⟩, 1, 20, false⟩ := by
    rw [hw]
    decide +kernel
  obtain ⟨e, he, hc⟩ := Option.bind_eq_some_iff.mp hcursor
  have htile : (w.entity? 0).bind (·.tile.map (·.value)) = some ⟨"lamp.json", 1⟩ := by
    rw [hw]
    decide +kernel
  rw [he, Option.bind_some] at htile
  obtain ⟨tile, ht, hvalue⟩ := Option.map_eq_some_iff.mp htile
  obtain ⟨tile', found, ht', hl, hplays⟩ :=
    (run_consistent {} [.insert "lamp.json" source {}, .spawn "lamp.json" 0 default, .tick 120]).1 0 e he
  obtain rfl : tile = tile' := Option.some.inj (ht.symm.trans ht')
  obtain ⟨track', frame, htrack, -, hframe, hshown⟩ := hplays _ hc
  rw [hvalue] at hl hshown
  exact ⟨e, track', frame, found, he, hc, htile, hl, htrack, hframe, (congrArg TileRef.tile hshown).symm⟩

end World

end TileWorld
