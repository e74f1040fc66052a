import TileWorld.Proofs.Playback
import TileWorld.Proofs.StoreGrowth

/-! One pass over an entity, part by part: what a switch of the controller puts in place, what
playback leaves behind, and what the two do not touch. -/
namespace TileWorld

/-! ### Marks

What passes and actions take for granted of a component: it is marked when it is put in place, and
when an update changes its value. -/

namespace Marked

variable {α : Type}

@[simp]
theorem fresh_value (value : α) : (fresh value).value = value :=
  rfl

@[simp]
theorem fresh_written (value : α) : (fresh value).written = true :=
  rfl

@[simp]
theorem settle_value (m : Marked α) : m.settle.value = m.value :=
  rfl

variable [DecidableEq α]

@[simp]
theorem update_value (m : Marked α) (value : α) : (m.update value).value = value := by
  simp only [update]
  split
  next h => exact h
  next => rfl

@[simp]
theorem update_written (m : Marked α) (value : α) :
    (m.update value).written = (m.written || m.value != value) := by
  simp only [update]
  split
  next h => simp [h]
  next h => simp [h]

end Marked

/-! ### What a tile starts with -/

theorem Track.frame?_zero (t : Track) : ∃ f, t.frame? 0 = some f ∧ f.tile = t.firstTile :=
  ⟨t.frames.head t.frames_ne_nil, by simp [Track.frame?, List.head_eq_getElem], rfl⟩

/-- A cursor that moves to a track stands where a new one would. -/
theorem Cursor.switchTrack_eq_start (c : Cursor) (track : TrackRef) :
    c.switchTrack track = .start track :=
  rfl

/-- Whatever cursor there was, a switch leaves the one that a spawn has. -/
theorem Entity.redirect_eq_map_start (cursor : Option Cursor) (track : Option TrackRef) :
    redirect cursor track = track.map .start := by
  cases cursor <;> cases track <;> rfl

namespace Store

/-- What an entity shows first when it starts to show a tile, and the cursor of its animation. -/
def start (s : Store) (tile : Tile) : Except Error (TileRef × Option Cursor) :=
  (s.resolve tile).map fun track => (s.firstShown tile track, track.map .start)

/-- A tile that starts shows itself without a cursor, or the first frame of its track. -/
theorem start_eq_ok_iff (s : Store) (tile : Tile) (shown : TileRef) (cursor : Option Cursor) :
    s.start tile = .ok (shown, cursor) ↔
      (s.resolve tile = .ok none ∧ shown = ⟨tile.tileset, tile.id⟩ ∧ cursor = none) ∨
      ∃ track, s.resolve tile = .ok (some track) ∧
        shown = ⟨track.tileset, ((s.track? track).map Track.firstTile).getD tile.id⟩ ∧
        cursor = some (.start track) := by
  simp only [start, map_eq_ok_iff]
  constructor
  · rintro ⟨track, hr, h⟩
    cases track with
    | none =>
      cases h
      exact Or.inl ⟨hr, rfl, rfl⟩
    | some track =>
      cases h
      exact Or.inr ⟨track, hr, rfl, rfl⟩
  · rintro (⟨hr, rfl, rfl⟩ | ⟨track, hr, rfl, rfl⟩)
    · exact ⟨none, hr, rfl⟩
    · exact ⟨some track, hr, rfl⟩

theorem start_cursor {s : Store} {tile : Tile} {shown : TileRef} {cursor : Option Cursor}
    (h : s.start tile = .ok (shown, cursor)) :
    cursor = none ∨ ∃ ref, cursor = some (.start ref) := by
  rcases (start_eq_ok_iff ..).mp h with ⟨_, _, hc⟩ | ⟨ref, _, _, hc⟩
  · exact Or.inl hc
  · exact Or.inr ⟨ref, hc⟩

end Store

namespace Entity

/-- A spawn shows what its tile starts with; its components are all marked, and its shapes unmade.
-/
theorem spawn_eq_ok_iff (s : Store) (tileset : String) (tile : TileId) (place : Placement)
    (e : Entity) :
    spawn s tileset tile place = .ok e ↔
      ∃ source shown cursor, s.lookup tileset tile = .ok source ∧
        s.start source = .ok (shown, cursor) ∧
        e = { tile := some (.fresh shown)
              position := some (.fresh place.position)
              flip := some (.fresh place.flip)
              shapes := some []
              cursor } := by
  simp only [spawn, bind_eq_ok_iff, Store.start, map_eq_ok_iff]
  constructor
  · rintro ⟨source, hl, track, hr, he⟩
    cases he
    exact ⟨source, _, _, hl, ⟨track, hr, rfl⟩, rfl⟩
  · rintro ⟨source, shown, cursor, hl, ⟨track, hr, hstart⟩, rfl⟩
    cases hstart
    exact ⟨source, hl, track, hr, rfl⟩

theorem spawn_of_resolve {s : Store} {tileset : String} {tile : TileId} {source : Tile} {ref : TrackRef}
    (hl : s.lookup tileset tile = .ok source) (hr : s.resolve source = .ok (some ref))
    (place : Placement) :
    spawn s tileset tile place =
      .ok { tile := some (.fresh (s.firstShown source (some ref)))
            position := some (.fresh place.position)
            flip := some (.fresh place.flip)
            shapes := some []
            cursor := some (.start ref) } := by
  refine (spawn_eq_ok_iff ..).mpr ⟨source, _, _, hl, ?_, rfl⟩
  exact (Store.start_eq_ok_iff ..).mpr (Or.inr ⟨ref, hr, rfl, rfl⟩)

/-- What a controller switches to: the tile it selects, what that tile first shows, and its cursor.
-/
structure Switch where
  selected : TileId
  shown : TileRef
  cursor : Option Cursor

/-- The switch that the controller makes now, if it makes one. -/
def switch? (s : Store) (e : Entity) : Option Switch :=
  match e.controller, e.tile, e.signals with
  | some controller, some _, some signals =>
    let selected := controller.selected signals
    if selected = controller.current then none
    else
      match s.lookup controller.tileset selected >>= s.start with
      | .ok (shown, cursor) => some ⟨selected, shown, cursor⟩
      | .error _ => none
  | _, _, _ => none

def Switch.apply (w : Switch) (e : Entity) : Entity :=
  { e with
    controller := e.controller.map fun c => { c with current := w.selected }
    signals := e.signals.map (·.clearFlag heldFlag)
    tile := e.tile.map (·.update w.shown)
    cursor := w.cursor }

variable (s : Store) (e : Entity)

theorem select_eq : e.select s = (e.switch? s).elim e (·.apply e) := by
  -- Nothing is selected without all three components, and nothing changes if the target fails.
  cases hc : e.controller with
  | none => simp [select, switch?, hc]
  | some controller =>
    cases ht : e.tile with
    | none => simp [select, switch?, hc, ht]
    | some tile =>
      cases hs : e.signals with
      | none => simp [select, switch?, hc, ht, hs]
      | some signals =>
        by_cases h : controller.selected signals = controller.current
        · simp [select, switch?, hc, ht, hs, h]
        · cases hl : s.lookup controller.tileset (controller.selected signals) with
          | error _ => simp [select, switch?, hc, ht, hs, h, hl, bind, Except.bind]
          | ok source =>
            cases hr : s.resolve source with
            | error _ =>
              simp [select, switch?, Store.start, hc, ht, hs, h, hl, hr, bind, Except.bind, Except.map]
            | ok track =>
              simp [select, switch?, Store.start, Switch.apply, redirect_eq_map_start, hc, ht, hs, h, hl,
                hr, bind, Except.bind, Except.map]

theorem select_of_switch? {s : Store} {e : Entity} {w : Switch} (h : e.switch? s = some w) :
    e.select s = w.apply e := by
  rw [select_eq, h]
  rfl

theorem select_of_no_switch {s : Store} {e : Entity} (h : e.switch? s = none) :
    e.select s = e := by
  rw [select_eq, h]
  rfl

/-- A controller switches when it selects another tile than it is on and that tile starts. -/
theorem switch?_eq_some_iff (w : Switch) :
    e.switch? s = some w ↔
      ∃ controller tile signals source,
        e.controller = some controller ∧ e.tile = some tile ∧ e.signals = some signals ∧
        controller.selected signals = w.selected ∧ w.selected ≠ controller.current ∧
        s.lookup controller.tileset w.selected = .ok source ∧
        s.start source = .ok (w.shown, w.cursor) := by
  constructor
  · intro h
    simp only [switch?] at h
    split at h
    next controller tile signals hc ht hs =>
      split at h
      next => cases h
      next hne =>
        split at h
        next shown cursor hl =>
          cases h
          obtain ⟨source, hsource, hstart⟩ := (bind_eq_ok_iff ..).mp hl
          exact ⟨controller, tile, signals, source, hc, ht, hs, rfl, hne, hsource, hstart⟩
        next => cases h
    next => cases h
  · rintro ⟨controller, tile, signals, source, hc, ht, hs, hsel, hne, hsource, hstart⟩
    have hl : s.lookup controller.tileset w.selected >>= s.start = .ok (w.shown, w.cursor) :=
      (bind_eq_ok_iff ..).mpr ⟨source, hsource, hstart⟩
    simp [switch?, hc, ht, hs, hsel, hne, hl]

/-- Playback of a cursor whose track is there: the tile of the frame reached is shown, and a hold
frame is announced unless it was before. -/
theorem play_eq {s : Store} {e : Entity} {c : Cursor} {tile : Marked TileRef} {track : Track}
    (hc : e.cursor = some c) (ht : e.tile = some tile) (htr : s.track? c.track = some track)
    (deltaMs : UInt32) :
    e.play s deltaMs =
      let c' := c.advance track deltaMs
      let shown : TileRef := ⟨c'.track.tileset, (c'.tile? track).getD 0⟩
      let announced := c'.isHolding track && !c'.heldNotified
      ({ e with
          tile := some (tile.update shown)
          cursor := some { c' with heldNotified := c'.isHolding track }
          signals := if announced then e.signals.map (·.setFlag heldFlag) else e.signals },
        if announced then some shown else none) := by
  simp only [play, hc, ht, htr]
  cases hh : (c.advance track deltaMs).isHolding track with
  | false => simp
  | true =>
    cases hn : (c.advance track deltaMs).heldNotified with
    | false => simp
    | true =>
      -- An announced hold keeps the cursor, whose flag says so already.
      have hset : c.advance track deltaMs =
          { c.advance track deltaMs with heldNotified := true } := by rw [← hn]
      simpa using hset

/-- An entity either has a cursor whose track is there, and a tile, or playback does nothing to it.
-/
theorem play_cases (deltaMs : UInt32) :
    (∃ c tile track, e.cursor = some c ∧ e.tile = some tile ∧ s.track? c.track = some track) ∨
      e.play s deltaMs = (e, none) := by
  cases hc : e.cursor with
  | none => exact Or.inr (by simp [play, hc])
  | some c =>
    cases ht : e.tile with
    | none => exact Or.inr (by simp [play, hc, ht])
    | some tile =>
      cases htr : s.track? c.track with
      | none => exact Or.inr (by simp [play, hc, ht, htr])
      | some track => exact Or.inl ⟨c, tile, track, rfl, rfl, htr⟩

theorem play_of_no_cursor {s : Store} {e : Entity} (h : e.cursor = none) (deltaMs : UInt32) :
    e.play s deltaMs = (e, none) := by
  simp [play, h]

/-- An entity whose tile may have been updated and whose place and shapes are as they were. -/
structure Retiled (e e' : Entity) : Prop where
  tile : e'.tile = e.tile ∨ ∃ shown, e'.tile = e.tile.map (·.update shown)
  position : e'.position = e.position
  flip : e'.flip = e.flip
  shapes : e'.shapes = e.shapes

theorem select_retiled : e.Retiled (e.select s) := by
  rw [select_eq]
  cases e.switch? s with
  | none => exact ⟨Or.inl rfl, rfl, rfl, rfl⟩
  | some w => exact ⟨Or.inr ⟨w.shown, rfl⟩, rfl, rfl, rfl⟩

theorem play_retiled (deltaMs : UInt32) : e.Retiled (e.play s deltaMs).1 := by
  rcases e.play_cases s deltaMs with ⟨c, tile, track, hc, ht, htr⟩ | hstill
  · rw [play_eq hc ht htr]
    exact ⟨Or.inr ⟨_, by rw [ht, Option.map_some]⟩, rfl, rfl, rfl⟩
  · rw [hstill]
    exact ⟨Or.inl rfl, rfl, rfl, rfl⟩

/-- Entities that show one tile, play one cursor and stand in one place, whatever else they carry.
-/
structure Alike (e e' : Entity) : Prop where
  tile : e.tile.map (·.value) = e'.tile.map (·.value)
  position : e.position.map (·.value) = e'.position.map (·.value)
  flip : e.flip.map (·.value) = e'.flip.map (·.value)
  cursor : e.cursor = e'.cursor

namespace Alike

variable {e e' e'' : Entity}

theorem symm (h : e.Alike e') : e'.Alike e :=
  ⟨h.tile.symm, h.position.symm, h.flip.symm, h.cursor.symm⟩

theorem trans (h : e.Alike e') (h' : e'.Alike e'') : e.Alike e'' :=
  ⟨h.tile.trans h'.tile, h.position.trans h'.position, h.flip.trans h'.flip,
    h.cursor.trans h'.cursor⟩

/-- Playback does the same to what looks the same. -/
theorem play (h : e.Alike e') (s : Store) (deltaMs : UInt32) :
    (e.play s deltaMs).1.Alike (e'.play s deltaMs).1 := by
  cases hc : e.cursor with
  | none =>
    have hc' : e'.cursor = none := h.cursor.symm.trans hc
    rw [play_of_no_cursor hc, play_of_no_cursor hc']
    exact h
  | some c =>
    have hc' : e'.cursor = some c := h.cursor.symm.trans hc
    cases ht : e.tile with
    | none =>
      have ht' : e'.tile = none := by simpa [ht] using h.tile.symm
      simpa [Entity.play, hc, hc', ht, ht'] using h
    | some tile =>
      obtain ⟨tile', ht', _⟩ := Option.map_eq_some_iff.mp (h.tile.symm.trans (congrArg _ ht))
      cases htr : s.track? c.track with
      | none => simpa [Entity.play, hc, hc', ht, ht', htr] using h
      | some track =>
        rw [play_eq hc ht htr, play_eq hc' ht' htr]
        exact ⟨by simp, h.position, h.flip, rfl⟩

end Alike

theorem refresh_eq : ∃ shapes, e.refresh s = { e with shapes } := by
  simp only [refresh]
  split
  · split
    · exact ⟨_, rfl⟩
    · exact ⟨e.shapes, rfl⟩
  · exact ⟨e.shapes, rfl⟩

theorem refresh_alike : (e.refresh s).Alike e := by
  obtain ⟨shapes, h⟩ := e.refresh_eq s
  rw [h]
  exact ⟨rfl, rfl, rfl, rfl⟩

theorem settle_alike : e.settle.Alike e := by
  refine ⟨?_, ?_, ?_, rfl⟩ <;> simp [settle, Function.comp_def]

/-- What a pass leaves looks as after the controller and playback. -/
theorem pass_alike (deltaMs : UInt32) :
    (e.pass s deltaMs).1.Alike ((e.select s).play s deltaMs).1 :=
  (settle_alike _).trans (refresh_alike s _)

/-- Playback and the rest of a pass leave the controller as it is. -/
theorem pass_controller (deltaMs : UInt32) :
    (e.pass s deltaMs).1.controller = (e.select s).controller := by
  have hplay : ((e.select s).play s deltaMs).1.controller = (e.select s).controller := by
    rcases (e.select s).play_cases s deltaMs with ⟨c, tile, track, hc, ht, htr⟩ | hstill
    · rw [play_eq hc ht htr]
    · rw [hstill]
  obtain ⟨shapes, h⟩ := ((e.select s).play s deltaMs).1.refresh_eq s
  simp only [pass, settle, h, hplay]

end Entity

end TileWorld
