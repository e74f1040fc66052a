import TileWorld.Proofs.EntityRun

/-! What cursors and signals know of holds. The cursor remembers whether it told of the hold frame
that it stands on, and the held flag says the same: a hold is told of once it is reached, and only a
switch of the controller makes both forget. -/
namespace TileWorld

theorem Store.start_untold {s : Store} {tile : Tile} {shown : TileRef} {cursor : Option Cursor}
    (h : s.start tile = .ok (shown, cursor)) : cursor.any (·.heldNotified) = false := by
  rcases start_cursor h with rfl | ⟨ref, rfl⟩
  · rfl
  · rfl

namespace Entity

/-- Whether the cursor stands on a hold frame. -/
def held (s : Store) (e : Entity) : Bool :=
  e.cursor.any fun c => (s.track? c.track).any c.isHolding

/-- Whether the cursor has told of the hold frame that it stands on. -/
def notified (e : Entity) : Bool :=
  e.cursor.any (·.heldNotified)

/-- An entity with a tile, whose cursor tells of no frame but a hold frame. -/
structure Remembers (s : Store) (e : Entity) : Prop where
  tile : ∃ tile, e.tile = some tile
  held : e.notified = true → e.held s = true

variable {s : Store} {e e' : Entity}

theorem held_iff (s : Store) (e : Entity) :
    e.held s = true ↔ ∃ c track frame, e.cursor = some c ∧ s.track? c.track = some track ∧
      track.frame? c.frame = some frame ∧ track.isHold frame = true := by
  simp only [held, Cursor.isHolding, Cursor.frame?, Option.any_eq_true]
  constructor
  · rintro ⟨c, hc, track, htrack, frame, hframe, hhold⟩
    exact ⟨c, track, frame, hc, htrack, hframe, hhold⟩
  · rintro ⟨c, track, frame, hc, htrack, hframe, hhold⟩
    exact ⟨c, hc, track, htrack, frame, hframe, hhold⟩

theorem held_congr (h : e'.cursor = e.cursor) (s : Store) : e'.held s = e.held s := by
  rw [held, h, held]

theorem notified_congr (h : e'.cursor = e.cursor) : e'.notified = e.notified := by
  rw [notified, h, notified]

theorem held_of_grows {s' : Store} (hg : s.Grows s') (h : e.held s = true) : e.held s' = true := by
  obtain ⟨c, track, frame, hcursor, htrack, hframe, hhold⟩ := (held_iff ..).mp h
  exact (held_iff ..).mpr ⟨c, track, frame, hcursor, hg.track? htrack, hframe, hhold⟩

theorem Remembers.keep {s' : Store} (h : e.Remembers s) (hg : s.Grows s') (ht : e'.tile = e.tile)
    (hc : e'.cursor = e.cursor) : e'.Remembers s' := by
  refine ⟨ht ▸ h.tile, ?_⟩
  intro hn
  rw [notified_congr hc] at hn
  rw [held_congr hc]
  exact held_of_grows hg (h.held hn)

theorem spawn_remembers {tileset : String} {tile : TileId} {place : Placement}
    (h : spawn s tileset tile place = .ok e) : e.Remembers s ∧ e.notified = false := by
  obtain ⟨_, _, cursor, _, hstart, rfl⟩ := (spawn_eq_ok_iff ..).mp h
  have hn : cursor.any (·.heldNotified) = false := Store.start_untold hstart
  refine ⟨⟨⟨_, rfl⟩, ?_⟩, hn⟩
  intro hnotified
  exact absurd (hn.symm.trans hnotified) (by simp)

theorem select_notified (s : Store) (e : Entity) :
    (e.select s).notified = (e.notified && (e.switch? s).isNone) := by
  cases hw : e.switch? s with
  | none => simp [select_of_no_switch hw]
  | some w =>
    obtain ⟨_, _, _, _, _, _, _, _, _, _, hstart⟩ := (switch?_eq_some_iff ..).mp hw
    -- The cursor of the new tile, if it has one, is at its start and has told of nothing.
    have hn : w.cursor.any (·.heldNotified) = false := Store.start_untold hstart
    rw [select_of_switch? hw]
    simpa [notified, Switch.apply] using hn

theorem Remembers.select (h : e.Remembers s) : (e.select s).Remembers s := by
  obtain ⟨tile, ht⟩ := h.tile
  cases hw : e.switch? s with
  | none => rwa [select_of_no_switch hw]
  | some w =>
    have hn := e.select_notified s
    rw [hw, Option.isNone_some, Bool.and_false] at hn
    refine ⟨⟨tile.update w.shown, ?_⟩, ?_⟩
    · rw [select_of_switch? hw, Switch.apply, ht]
      rfl
    · rw [hn]
      simp

/-- What is told of a hold when playback has left an entity, if one had been told before or not: one
that is reached now, with the tile shown. A hold that was told of before is not left. -/
structure Tells (s : Store) (before : Bool) (e : Entity) (event : Option TileRef) : Prop where
  stays : before = true → e.held s = true
  notified : e.notified = e.held s
  event : ∃ tile, e.tile = some tile ∧
    event = if e.held s && !before then some tile.value else none

theorem Tells.congr {before : Bool} {event : Option TileRef} (h : e.Tells s before event)
    (ha : e'.Alike e) : e'.Tells s before event := by
  have hheld : e'.held s = e.held s := held_congr ha.cursor s
  obtain ⟨tile, ht, hevent⟩ := h.event
  have hvalue : e'.tile.map (·.value) = some tile.value := by rw [ha.tile, ht, Option.map_some]
  obtain ⟨tile', ht', hv⟩ := Option.map_eq_some_iff.mp hvalue
  refine ⟨hheld ▸ h.stays, ?_, tile', ht', ?_⟩
  · rw [notified_congr ha.cursor, h.notified, hheld]
  · rw [hheld, hv, hevent]

theorem Tells.remembers {before : Bool} {event : Option TileRef} (h : e.Tells s before event) :
    e.Remembers s := by
  obtain ⟨tile, ht, _⟩ := h.event
  exact ⟨⟨tile, ht⟩, fun hn => h.notified.symm.trans hn⟩

theorem Remembers.play (h : e.Remembers s) (deltaMs : UInt32) :
    (e.play s deltaMs).1.Tells s e.notified (e.play s deltaMs).2 := by
  obtain ⟨tile, ht⟩ := h.tile
  -- Without a cursor or its track nothing is played, held or told.
  have hstill (hh : e.held s = false) (hp : e.play s deltaMs = (e, none)) :
      (e.play s deltaMs).1.Tells s e.notified (e.play s deltaMs).2 := by
    have hn : e.notified = false := by
      by_contra hn
      have hheld := h.held (Bool.eq_true_of_not_eq_false hn)
      rw [hh] at hheld
      cases hheld
    rw [hp, hn]
    exact ⟨by simp, hn.trans hh.symm, tile, ht, by simp [hh]⟩
  cases hc : e.cursor with
  | none => exact hstill (by simp [Entity.held, hc]) (play_of_no_cursor hc deltaMs)
  | some c =>
    cases htr : s.track? c.track with
    | none => exact hstill (by simp [Entity.held, hc, htr]) (by simp [Entity.play, hc, ht, htr])
    | some track =>
      have hstays : e.notified = true → (c.advance track deltaMs).isHolding track = true := by
        intro hnotified
        have hheld := h.held hnotified
        simp only [Entity.held, hc, htr, Option.any_some] at hheld
        exact Cursor.advance_isHolding hheld deltaMs
      have hheld : (e.play s deltaMs).1.held s = (c.advance track deltaMs).isHolding track := by
        rw [play_eq hc ht htr]
        simp [Entity.held, htr, Cursor.isHolding_eq]
      have hbefore : e.notified = c.heldNotified := by simp [Entity.notified, hc]
      let shown : TileRef := ⟨(c.advance track deltaMs).track.tileset,
        ((c.advance track deltaMs).tile? track).getD 0⟩
      refine ⟨?_, ?_, tile.update shown, ?_, ?_⟩
      · rwa [hheld]
      · rw [hheld, play_eq hc ht htr]
        rfl
      · rw [play_eq hc ht htr]
      · rw [hheld, hbefore, play_eq hc ht htr]
        simp [shown]

theorem Remembers.pass (h : e.Remembers s) (deltaMs : UInt32) :
    (e.pass s deltaMs).1.Tells s (e.notified && (e.switch? s).isNone) (e.pass s deltaMs).2 := by
  have hplayed := h.select.play deltaMs
  rw [select_notified] at hplayed
  exact hplayed.congr (e.pass_alike s deltaMs)

/-- Playback raises the held flag when it tells of a hold, and touches the signals in no other way.
-/
theorem play_signals (s : Store) (e : Entity) (deltaMs : UInt32) :
    (e.play s deltaMs).1.signals =
      if (e.play s deltaMs).2.isSome then e.signals.map (·.setFlag heldFlag) else e.signals := by
  rcases e.play_cases s deltaMs with ⟨c, tile, track, hc, ht, htr⟩ | hstill
  · rw [play_eq hc ht htr]
    dsimp only
    split
    · rfl
    · rfl
  · rw [hstill]
    rfl

theorem select_signals (s : Store) (e : Entity) :
    (e.select s).signals =
      if (e.switch? s).isSome then e.signals.map (·.clearFlag heldFlag) else e.signals := by
  rw [select_eq]
  cases e.switch? s with
  | none => rfl
  | some w => rfl

theorem pass_signals (s : Store) (e : Entity) (deltaMs : UInt32) :
    (e.pass s deltaMs).1.signals = ((e.select s).play s deltaMs).1.signals := by
  obtain ⟨shapes, h⟩ := ((e.select s).play s deltaMs).1.refresh_eq s
  simp only [Entity.pass, settle, h]

/-- The held flag of an entity with signals is up when its cursor has told of a hold. -/
structure Flagged (s : Store) (e : Entity) : Prop where
  remembers : e.Remembers s
  flag : ∃ signals, e.signals = some signals ∧ signals.hasFlag heldFlag = e.notified

theorem Flagged.select (h : e.Flagged s) : (e.select s).Flagged s := by
  obtain ⟨signals, hs, hflag⟩ := h.flag
  refine ⟨h.remembers.select, ?_⟩
  rw [select_notified, select_signals, hs]
  cases e.switch? s with
  | none => exact ⟨signals, rfl, by simp [hflag]⟩
  | some w => exact ⟨signals.clearFlag heldFlag, rfl, by simp [Signals.hasFlag_clearFlag]⟩

theorem Flagged.play (h : e.Flagged s) (deltaMs : UInt32) : (e.play s deltaMs).1.Flagged s := by
  obtain ⟨signals, hs, hflag⟩ := h.flag
  have htells := h.remembers.play deltaMs
  obtain ⟨tile, _, hevent⟩ := htells.event
  refine ⟨htells.remembers, ?_⟩
  rw [play_signals, hs, htells.notified, hevent]
  cases hb : e.notified with
  | true =>
    -- The flag is up already, and the hold that it stands for is not left.
    have hheld := htells.stays hb
    exact ⟨signals, by simp, by rw [hflag, hb, hheld]⟩
  | false =>
    cases hheld : (e.play s deltaMs).1.held s with
    | true => exact ⟨signals.setFlag heldFlag, by simp, by simp [Signals.hasFlag_setFlag]⟩
    | false => exact ⟨signals, by simp, by rw [hflag, hb]⟩

theorem Flagged.pass (h : e.Flagged s) (deltaMs : UInt32) : (e.pass s deltaMs).1.Flagged s := by
  obtain ⟨signals, hs, hflag⟩ := (h.select.play deltaMs).flag
  refine ⟨(h.remembers.pass deltaMs).remembers, signals, (pass_signals ..).trans hs, ?_⟩
  rw [hflag, notified_congr (e.pass_alike s deltaMs).cursor]

theorem Remembers.act {w : World} (h : e.Remembers w.store) {a : Action} (ha : a.tickMs? = none)
    (id : EntityId) :
    (e.act w id a).Remembers (w.act a).store ∧ (e.act w id a).notified = e.notified := by
  have hkept := e.act_kept w id ha
  have hgrows := (w.act_published a).grows
  exact ⟨h.keep hgrows hkept.tile hkept.cursor, notified_congr hkept.cursor⟩

theorem Flagged.act {w : World} {id : EntityId} {a : Action} (h : e.Flagged w.store)
    (spares : a.Spares id)
    (keeps : ∀ write, a = .signal id write → ∀ signals,
      (write signals).hasFlag heldFlag = signals.hasFlag heldFlag) :
    (e.act w id a).Flagged (w.act a).store := by
  cases ha : a.tickMs? with
  | some ms =>
    obtain rfl := Action.eq_tick_of_tickMs? ha
    exact h.pass (w.tickMs ms)
  | none =>
    have hkept := e.act_kept w id ha
    obtain ⟨hremembers, hnotified⟩ := h.remembers.act ha id
    obtain ⟨signals, hs, hflag⟩ := h.flag
    refine ⟨hremembers, ?_⟩
    rw [hnotified]
    rcases hkept.signals spares with hsame | ⟨write, rfl, hwritten⟩
    · exact ⟨signals, hsame.trans hs, hflag⟩
    · exact ⟨write signals, by rw [hwritten, hs, Option.map_some], by rw [keeps write rfl, hflag]⟩

end Entity

namespace World

variable {w : World} {id : EntityId} {e : Entity} {actions : List Action}

theorem run_untold (he : w.entity? id = some e)
    (h : e.Remembers w.store ∧ e.notified = false) (unticked : ∀ ms, .tick ms ∉ actions) :
    ∃ e', (w.run actions).entity? id = some e' ∧
      e'.Remembers (w.run actions).store ∧ e'.notified = false := by
  apply run_entity_invariant (P := fun w e => e.Remembers w.store ∧ e.notified = false) ?_ he h
  rintro v x a ha ⟨hremembers, hnotified⟩
  have hnone : a.tickMs? = none := Action.tickMs?_eq_none fun ms hms => unticked ms (hms ▸ ha)
  obtain ⟨hkept, hsame⟩ := hremembers.act hnone id
  exact ⟨hkept, hsame.trans hnotified⟩

theorem run_flagged (he : w.entity? id = some e) (h : e.Flagged w.store)
    (spares : ∀ a ∈ actions, a.Spares id)
    (keeps : ∀ write, .signal id write ∈ actions → ∀ signals,
      (write signals).hasFlag heldFlag = signals.hasFlag heldFlag) :
    ∃ e', (w.run actions).entity? id = some e' ∧ e'.Flagged (w.run actions).store := by
  apply run_entity_invariant (P := fun w e => e.Flagged w.store) ?_ he h
  intro v x a ha hx
  exact hx.act (spares a ha) fun write hw => keeps write (hw ▸ ha)

/-- The held flag tells the truth. If an entity got signals without the flag before its first tick,
with a controller or not, and no one else sets or clears the flag, then after every tick the flag is
up exactly when the cursor stands on a hold frame. -/
theorem tick_heldFlag_iff (w spawned : World) (id : EntityId) (tileset : String) (tile : TileId)
    (place : Placement) (hspawn : w.spawn tileset tile place = .ok (id, spawned))
    (earlier : List Action) (unticked : ∀ ms, .tick ms ∉ earlier)
    (controller : Option Controller) (signals : Signals)
    (down : signals.hasFlag heldFlag = false) (actions : List Action)
    (spares : ∀ a ∈ actions, a.Spares id)
    (keeps : ∀ write, .signal id write ∈ actions → ∀ signals,
      (write signals).hasFlag heldFlag = signals.hasFlag heldFlag) (ms : UInt32) :
    let start := (spawned.run earlier).modify id fun e =>
      { e with controller, signals := some signals }
    let now := (start.run actions).act (.tick ms)
    ∃ e signals, now.entity? id = some e ∧ e.signals = some signals ∧
      (signals.hasFlag heldFlag = true ↔
        ∃ c track frame, e.cursor = some c ∧ now.store.track? c.track = some track ∧
          track.frame? c.frame = some frame ∧ track.isHold frame = true) := by
  intro start now
  obtain ⟨e, he, hthere, hstore, _⟩ := entity?_of_spawn hspawn
  have hspawned := Entity.spawn_remembers he
  rw [← hstore] at hspawned
  obtain ⟨e₀, he₀, hremembers, hnotified⟩ := run_untold hthere hspawned unticked
  have hstart : start.entity? id = some { e₀ with controller, signals := some signals } := by
    rw [entity?_modify, if_pos rfl, he₀]
    rfl
  have hflagged : Entity.Flagged start.store { e₀ with controller, signals := some signals } :=
    ⟨hremembers.keep (Store.Grows.refl _) rfl rfl, signals, rfl, down.trans hnotified.symm⟩
  obtain ⟨before, hbefore, hb⟩ := run_flagged hstart hflagged spares keeps
  have htold := (hb.remembers.pass ((start.run actions).tickMs ms)).notified
  obtain ⟨signals', hs, hflag⟩ := (hb.pass ((start.run actions).tickMs ms)).flag
  refine ⟨_, signals', act_entity? hbefore (.tick ms), hs, ?_⟩
  rw [hflag, htold]
  exact Entity.held_iff ..

/-- A door whose rule reads the flag: when the door has opened, the flag moves the controller on to
another tile, and falls in the same tick. -/
theorem tick_heldFlag_iff_door :
    let track : Track := ⟨⟨10000, true⟩, [⟨1, 100⟩, ⟨2, 0⟩], by simp⟩
    let door : Tile := ⟨"door.json", 0, ⟨16, 16⟩, [], [], some (.inline 0)⟩
    let cells : List Tile := [1, 2, 3].map (Tileset.plainTile "door.json" ⟨16, 16⟩)
    let store : Store := ⟨[⟨"door.json", "door", ⟨16, 16⟩, door :: cells, [track], [0]⟩], by simp⟩
    let w : World := ⟨default, store, {}, []⟩
    let spawned : World := { w with
      entities := [some
        { tile := some (.fresh ⟨"door.json", 1⟩)
          position := some (.fresh default)
          flip := some (.fresh default)
          cursor := some (.start ⟨"door.json", 0⟩)
          shapes := some [] }] }
    let earlier : List Action := [.move 0 ⟨4, 4⟩]
    let controller : Controller := .start "door.json" 0 [⟨.hasFlag heldFlag, 3⟩]
    let start := (spawned.run earlier).modify 0 fun e =>
      { e with controller := some controller, signals := some .empty }
    let actions : List Action := [.tick 60, .signal 0 (·.setInteger "knocks" 2), .tick 60]
    let now := (start.run actions).act (.tick 0)
    w.spawn "door.json" 0 default = .ok (0, spawned) ∧
      ((start.run actions).entity? 0).bind (·.signals.map (·.hasFlag heldFlag)) = some true ∧
      (now.entity? 0).bind (·.signals.map (·.hasFlag heldFlag)) = some false ∧
      ∃ e signals, now.entity? 0 = some e ∧ e.signals = some signals ∧
        (signals.hasFlag heldFlag = true ↔
          ∃ c track frame, e.cursor = some c ∧ now.store.track? c.track = some track ∧
            track.frame? c.frame = some frame ∧ track.isHold frame = true) := by
  intro track door cells store w spawned earlier controller start actions now
  have hlookup : w.store.lookup "door.json" 0 = .ok door := by decide +kernel
  have hresolve : w.store.resolve door = .ok (some ⟨"door.json", 0⟩) := by decide +kernel
  have hspawn : w.spawn "door.json" 0 default = .ok (0, spawned) :=
    (spawn_eq_ok_iff ..).mpr ⟨_, Entity.spawn_of_resolve hlookup hresolve _, rfl⟩
  have unticked : ∀ ms, .tick ms ∉ earlier := by simp [earlier]
  have spares : ∀ a ∈ actions, a.Spares 0 := by simp [actions, Action.Spares]
  have keeps : ∀ write, .signal 0 write ∈ actions → ∀ signals,
      (write signals).hasFlag heldFlag = signals.hasFlag heldFlag := by
    intro write hw signals
    obtain rfl : write = (·.setInteger "knocks" 2) := by simpa [actions] using hw
    rfl
  refine ⟨hspawn, by decide +kernel, by decide +kernel, ?_⟩
  exact tick_heldFlag_iff w spawned 0 "door.json" 0 default hspawn earlier unticked
    (some controller) .empty rfl actions spares keeps 0

end World

end TileWorld
