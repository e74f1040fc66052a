import TileWorld.Proofs.EntityRun
import TileWorld.Proofs.FreshSpawn

/-! Entities without a controller on looping tracks. Each tick gives their cursors the milliseconds
that it gives the clock, so the phase of such an entity is that of the time since its spawn. -/
namespace TileWorld

namespace Entity

/-- Nothing controls the entity, and it has played a track from the start for some deltas. -/
structure Plays (ref : TrackRef) (track : Track) (ds : List UInt32) (e : Entity) : Prop where
  free : e.controller = none
  cursor : e.cursor = some ((Cursor.start ref).advanceAll track ds)
  shown : ∃ f, track.frame? ((Cursor.start ref).advanceAll track ds).frame = some f ∧
    e.tile.map (·.value) = some ⟨ref.tileset, f.tile⟩

variable {s : Store} {ref : TrackRef} {track : Track} {ds : List UInt32} {e : Entity}

theorem spawn_plays {tileset : String} {tile : TileId} {place : Placement} {source : Tile}
    (hl : s.lookup tileset tile = .ok source) (hr : s.resolve source = .ok (some ref))
    (htrack : s.track? ref = some track) (h : spawn s tileset tile place = .ok e) :
    e.Plays ref track [] := by
  obtain ⟨source', shown, cursor, hl', hstart, rfl⟩ := (spawn_eq_ok_iff ..).mp h
  obtain rfl : source = source' := Except.ok.inj (hl.symm.trans hl')
  rcases (Store.start_eq_ok_iff ..).mp hstart with ⟨hnone, _, _⟩ | ⟨ref', hr', rfl, rfl⟩
  · rw [hr] at hnone
    cases hnone
  · obtain rfl : ref = ref' := Option.some.inj (Except.ok.inj (hr.symm.trans hr'))
    obtain ⟨f, hf, hfirst⟩ := track.frame?_zero
    refine ⟨rfl, rfl, f, hf, ?_⟩
    rw [htrack, hfirst]
    rfl

theorem Plays.pass (hh : track.hasHold = false) (htrack : s.track? ref = some track)
    (h : e.Plays ref track ds) (delta : UInt32) :
    (e.pass s delta).1.Plays ref track (ds ++ [delta]) := by
  obtain ⟨_, _, hshown⟩ := h.shown
  obtain ⟨tile, htile, _⟩ := Option.map_eq_some_iff.mp hshown
  have hsel : e.select s = e := select_of_free s h.free
  have halike := e.pass_alike s delta
  rw [hsel, play_eq h.cursor htile (by simpa using htrack)] at halike
  have hfree : (e.pass s delta).1.controller = none := by rw [pass_controller, hsel, h.free]
  -- A loop never holds, so playback leaves the flag for announcements down, as a start does.
  have hdown (c : Cursor) (hc : c.heldNotified = false) :
      { c with heldNotified := c.isHolding track } = c := by
    rw [Cursor.isHolding_eq, Track.holdsAt_eq_false hh, ← hc]
  have hcursor : (e.pass s delta).1.cursor =
      some ((Cursor.start ref).advanceAll track (ds ++ [delta])) := by
    rw [halike.cursor, Cursor.advanceAll_concat]
    exact congrArg some (hdown _ (by simp))
  obtain ⟨f, hf⟩ := Track.frame?_of_lt
    (((Cursor.start ref).advanceAll track ds).advance_frame_lt track delta)
  refine ⟨hfree, hcursor, f, ?_, ?_⟩
  · rwa [Cursor.advanceAll_concat]
  · rw [halike.tile]
    simp [Cursor.tile?, Cursor.frame?, hf]

/-- Whatever is done to its world but to put it under a controller, an entity has played the deltas
of all ticks. -/
theorem Plays.run (hh : track.hasHold = false) {w : World} {id : EntityId}
    (he : w.entity? id = some e) (htrack : w.store.track? ref = some track)
    (h : e.Plays ref track ds) {actions : List Action} (spares : ∀ a ∈ actions, a.Spares id) :
    ∃ e', (w.run actions).entity? id = some e' ∧ e'.Plays ref track (ds ++ w.deltas actions) := by
  induction actions generalizing w e ds with
  | nil => exact ⟨e, he, by simpa [World.deltas, World.ticks] using h⟩
  | cons a actions ih =>
    have hstays := World.act_entity? he a
    have htrack' := (w.act_published a).grows.track? htrack
    have hlater : ∀ b ∈ actions, b.Spares id := fun b hb => spares b (List.mem_cons_of_mem a hb)
    cases ha : a.tickMs? with
    | none =>
      have hd : w.deltas (a :: actions) = (w.act a).deltas actions := by
        rw [World.deltas, World.ticks_cons_of_none w ha, World.deltas]
      have hkept := e.act_kept w id ha
      have hfree := hkept.controller (spares a List.mem_cons_self)
      have hplays : (e.act w id a).Plays ref track ds :=
        ⟨hfree.trans h.free, hkept.cursor.trans h.cursor, hkept.tile ▸ h.shown⟩
      rw [hd]
      exact ih hstays htrack' hplays hlater
    | some ms =>
      obtain rfl := Action.eq_tick_of_tickMs? ha
      have hd : w.deltas (.tick ms :: actions) =
          [w.tickMs ms] ++ (w.act (.tick ms)).deltas actions := rfl
      rw [hd, ← List.append_assoc]
      exact ih hstays htrack' (h.pass hh htrack (w.tickMs ms)) hlater

end Entity

namespace World

/-- Every looping entity is locked to the clock of its world. After any run with at least one tick,
whatever the time scale is and becomes, it shows the frame on which its cursor stands, and the
cursor stands where the time that the clock has counted since the spawn leads, modulo the period. -/
theorem run_loop_locked_to_clock (w spawned : World) (id : EntityId) (tileset : String)
    (tile : TileId) (place : Placement) (hspawn : w.spawn tileset tile place = .ok (id, spawned))
    (source : Tile) (ref : TrackRef) (track : Track)
    (hlookup : w.store.lookup tileset tile = .ok source)
    (hresolve : w.store.resolve source = .ok (some ref))
    (htrack : w.store.track? ref = some track)
    (loops : track.hasHold = false) (takesTime : 0 < track.periodMs)
    (actions : List Action) (free : ∀ a ∈ actions, a.Spares id)
    (ticked : ∃ ms, .tick ms ∈ actions)
    (fits : spawned.clock.elapsedMs.toNat + totalMs (spawned.deltas actions) < 2 ^ 64) :
    let now := spawned.run actions
    ∃ e c frame, now.entity? id = some e ∧ e.cursor = some c ∧ c.track = ref ∧
      track.frame? c.frame = some frame ∧
      e.tile.map (·.value) = some ⟨ref.tileset, frame.tile⟩ ∧
      c.elapsedMs.toNat < track.duration c.frame ∧
      spawned.clock.elapsedMs ≤ now.clock.elapsedMs ∧
      track.before c.frame + c.elapsedMs.toNat ≡
        now.clock.elapsedMs.toNat - spawned.clock.elapsedMs.toNat [MOD track.periodMs] := by
  intro now
  obtain ⟨e, he, hthere, hstore, _⟩ := entity?_of_spawn hspawn
  have hplays := Entity.spawn_plays hlookup hresolve htrack he
  obtain ⟨e', he', hplays'⟩ := hplays.run loops hthere (by rwa [hstore]) free
  rw [List.nil_append] at hplays'
  obtain ⟨frame, hframe, hshown⟩ := hplays'.shown
  -- The cursor has spent the very deltas that the clock has counted.
  have hticks : spawned.deltas actions ≠ [] := by
    rw [deltas, ne_eq, List.map_eq_nil_iff]
    exact ticks_ne_nil spawned ticked
  have hrests := Cursor.advanceAll_rests (c := .start ref) (Or.inr takesTime : track.Live) hticks
  have horigin : (Cursor.start ref).origin track = (0, 0) := Cursor.origin_of_lt track.length_pos
  obtain ⟨hlt, hphase⟩ := hrests.phase loops
  rw [horigin, Track.before_zero, Nat.zero_add, Nat.zero_add] at hphase
  have hclock : now.clock.elapsedMs.toNat =
      spawned.clock.elapsedMs.toNat + totalMs (spawned.deltas actions) :=
    run_elapsedMs spawned actions fits
  have hpassed : now.clock.elapsedMs.toNat - spawned.clock.elapsedMs.toNat =
      totalMs (spawned.deltas actions) := by omega
  refine ⟨e', _, frame, he', hplays'.cursor, by simp, hframe, hshown, hlt, ?_, ?_⟩
  · rw [UInt64.le_iff_toNat_le]
    omega
  · rwa [hpassed]

/-- A feeder that plays the belt of another tileset, in a world at half speed and then at double. -/
theorem run_loop_locked_to_clock_feeder :
    let track : Track := ⟨⟨10000, false⟩, [⟨0, 10⟩, ⟨1, 15⟩], by simp⟩
    let belt : Tile := ⟨"belts.json", 0, ⟨16, 16⟩, [], [], some (.inline 0)⟩
    let feeder : Tile := ⟨"floor.json", 4, ⟨16, 16⟩, [], [], some (.external "belts.json")⟩
    let bare : Tile := Tileset.plainTile "belts.json" ⟨16, 16⟩ 1
    let store : Store := ⟨[⟨"belts.json", "belts", ⟨16, 16⟩, [belt, bare], [track], [0]⟩,
      ⟨"floor.json", "floor", ⟨16, 16⟩, [feeder], [], []⟩], by simp⟩
    let w : World := ⟨default, store, { elapsedMs := 1000, scale := 0.5 }, []⟩
    let spawned : World := { w with
      entities := [some
        { tile := some (.fresh ⟨"belts.json", 0⟩)
          position := some (.fresh default)
          flip := some (.fresh default)
          cursor := some (.start ⟨"belts.json", 0⟩)
          shapes := some [] }] }
    let actions : List Action := [.tick 33, .rescale 2.0, .move 0 ⟨4, 4⟩, .tick 7]
    let now := spawned.run actions
    w.spawn "floor.json" 4 default = .ok (0, spawned) ∧ spawned.deltas actions = [16, 14] ∧
      ∃ e c frame, now.entity? 0 = some e ∧ e.cursor = some c ∧ c.track = ⟨"belts.json", 0⟩ ∧
        track.frame? c.frame = some frame ∧
        e.tile.map (·.value) = some ⟨"belts.json", frame.tile⟩ ∧
        c.elapsedMs.toNat < track.duration c.frame ∧
        spawned.clock.elapsedMs ≤ now.clock.elapsedMs ∧
        track.before c.frame + c.elapsedMs.toNat ≡
          now.clock.elapsedMs.toNat - spawned.clock.elapsedMs.toNat [MOD track.periodMs] := by
  intro track belt feeder bare store w spawned actions now
  have hlookup : w.store.lookup "floor.json" 4 = .ok feeder := by decide +kernel
  have hresolve : w.store.resolve feeder = .ok (some ⟨"belts.json", 0⟩) := by decide +kernel
  have htrack : w.store.track? ⟨"belts.json", 0⟩ = some track := by rfl
  have hspawn : w.spawn "floor.json" 4 default = .ok (0, spawned) :=
    (spawn_eq_ok_iff ..).mpr ⟨_, Entity.spawn_of_resolve hlookup hresolve _, rfl⟩
  have hdeltas : spawned.deltas actions = [16, 14] := by decide +kernel
  have free : ∀ a ∈ actions, a.Spares 0 := by
    simp [actions, Action.Spares]
  have ticked : ∃ ms, .tick ms ∈ actions := ⟨7, by simp [actions]⟩
  have fits : spawned.clock.elapsedMs.toNat + totalMs (spawned.deltas actions) < 2 ^ 64 := by
    rw [hdeltas]
    decide
  refine ⟨hspawn, hdeltas, ?_⟩
  exact run_loop_locked_to_clock w spawned 0 "floor.json" 4 default hspawn feeder
    ⟨"belts.json", 0⟩ track hlookup hresolve htrack (by decide) (by decide) actions free ticked fits

end World

end TileWorld
