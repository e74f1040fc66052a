import TileWorld.Proofs.BrokenReferences
import TileWorld.Proofs.FreshSpawn
import TileWorld.Proofs.HeldFlag

/-! A controller that selects a tile which cannot be started, because it is unknown or refers elsewhere
in vain. The tick then does what it does where nothing controls the entity, and the controller tries
again with every tick, until the tile starts. -/
namespace TileWorld

namespace Store

/-- A tile that cannot be started now. -/
inductive Unresolved (s : Store) (tileset : String) (tile : TileId) : Prop where
  | unknown (missing : ∀ source, s.lookup tileset tile ≠ .ok source)
  | broken {source : Tile} (known : s.lookup tileset tile = .ok source) (dangles : s.Dangles source)

theorem start_eq_error_iff (s : Store) (tile : Tile) (e : Error) :
    s.start tile = .error e ↔ s.Dangles tile ∧ e = tile.brokenReference := by
  rw [start, map_eq_error_iff, resolve_eq_error_iff]

/-- What is not unresolved is found and starts. -/
theorem not_unresolved_iff (s : Store) (tileset : String) (tile : TileId) :
    ¬ s.Unresolved tileset tile ↔
      ∃ source shown cursor, s.lookup tileset tile = .ok source ∧
        s.start source = .ok (shown, cursor) := by
  constructor
  · intro hresolved
    cases hl : s.lookup tileset tile with
    | error e => exact absurd (.unknown fun source => by rw [hl]; simp) hresolved
    | ok source =>
      cases hstart : s.start source with
      | error e =>
        have hdangles := ((start_eq_error_iff ..).mp hstart).1
        exact absurd (.broken hl hdangles) hresolved
      | ok start => exact ⟨source, start.1, start.2, rfl, hstart⟩
  · rintro ⟨source, shown, cursor, hl, hstart⟩ hunresolved
    cases hunresolved with
    | unknown missing => exact missing source hl
    | broken known dangles =>
      obtain rfl : source = _ := Except.ok.inj (hl.symm.trans known)
      have herror := (start_eq_error_iff ..).mpr ⟨dangles, rfl⟩
      rw [hstart] at herror
      cases herror

end Store

namespace Entity

/-- The tile that the controller selects now. -/
def selected? (e : Entity) : Option TileId :=
  match e.controller, e.signals with
  | some controller, some signals => some (controller.selected signals)
  | _, _ => none

/-- The entity without its controller. -/
def released (e : Entity) : Entity :=
  { e with controller := none }

variable {s : Store} {e : Entity}

theorem play_released (s : Store) (e : Entity) (deltaMs : UInt32) :
    e.released.play s deltaMs = ((e.play s deltaMs).1.released, (e.play s deltaMs).2) := by
  cases hc : e.cursor with
  | none => rw [play_of_no_cursor hc, play_of_no_cursor (e := e.released) hc]
  | some cursor =>
    cases ht : e.tile with
    | none => simp [play, released, hc, ht]
    | some tile =>
      cases htrack : s.track? cursor.track with
      | none => simp [play, released, hc, ht, htrack]
      | some track =>
        rw [play_eq hc ht htrack, play_eq (e := e.released) hc ht htrack]
        rfl

theorem refresh_released (s : Store) (e : Entity) : e.released.refresh s = (e.refresh s).released := by
  have hmoved : e.released.moved = e.moved := rfl
  have hcurrent : e.released.currentShapes? s = e.currentShapes? s := rfl
  rw [refresh, refresh, hmoved, hcurrent]
  split
  · cases hs : e.shapes <;> cases e.currentShapes? s <;> simp [released, hs]
  · rfl

/-- Once the controller has chosen, a pass does the same without it. -/
theorem pass_released (s : Store) (e : Entity) (deltaMs : UInt32) :
    (e.select s).released.pass s deltaMs = ((e.pass s deltaMs).1.released, (e.pass s deltaMs).2) := by
  have hfree : (e.select s).released.select s = (e.select s).released := select_of_free s rfl
  rw [pass, hfree, play_released]
  dsimp only
  rw [refresh_released]
  rfl

theorem switch?_of_unresolved {c : Controller} {tile : TileId} (hc : e.controller = some c)
    (hselected : e.selected? = some tile) (h : s.Unresolved c.tileset tile) : e.switch? s = none := by
  cases hw : e.switch? s with
  | none => rfl
  | some w =>
    obtain ⟨c', _, signals, source, hc', _, hs, hsel, _, hl, hstart⟩ := (switch?_eq_some_iff ..).mp hw
    obtain rfl : c' = c := Option.some.inj (hc'.symm.trans hc)
    have hsame : w.selected = tile := by
      rw [selected?, hc, hs] at hselected
      exact hsel.symm.trans (Option.some.inj hselected)
    rw [hsame] at hl
    exact absurd h ((s.not_unresolved_iff ..).mpr ⟨source, _, _, hl, hstart⟩)

/-- A controlled entity whose controller may have moved on, but not to a given tile. -/
structure Awaits (c : Controller) (tile : TileId) (e : Entity) : Prop where
  controller : ∃ current, e.controller = some { c with current } ∧ current ≠ tile
  signals : e.signals.isSome = true
  shown : e.tile.isSome = true

theorem Awaits.pass {c : Controller} {tile : TileId} (h : e.Awaits c tile)
    (hblocked : e.selected? = some tile → s.Unresolved c.tileset tile) (deltaMs : UInt32) :
    (e.pass s deltaMs).1.Awaits c tile := by
  obtain ⟨current, hc, hne⟩ := h.controller
  obtain ⟨signals, hs⟩ := Option.isSome_iff_exists.mp h.signals
  refine ⟨?_, ?_, ?_⟩
  · rw [pass_controller, select_eq]
    cases hw : e.switch? s with
    | none => exact ⟨current, hc, hne⟩
    | some w =>
      -- A switch is to what is selected, so if that is the tile, the tile would have to start.
      refine ⟨w.selected, ?_, ?_⟩
      · rw [Option.elim_some, Switch.apply, hc]
        rfl
      · rintro rfl
        obtain ⟨_, _, signals', _, hc', _, hs', hsel, _⟩ := (switch?_eq_some_iff ..).mp hw
        have hselected : e.selected? = some w.selected := by
          rw [selected?, hc', hs', ← hsel]
        have hnone := switch?_of_unresolved hc hselected (hblocked hselected)
        rw [hw] at hnone
        cases hnone
  · rw [pass_signals, play_signals, select_signals, hs]
    split <;> split <;> rfl
  · obtain ⟨tile', ht⟩ := Option.isSome_iff_exists.mp h.shown
    have hplay := (e.select s).play_retiled s deltaMs
    have hvalue := (e.pass_alike s deltaMs).tile
    have hsome : ((e.select s).play s deltaMs).1.tile.isSome = true := by
      rcases hplay.tile with hsame | ⟨shown, hupdate⟩ <;>
        rcases (e.select_retiled s).tile with hsame' | ⟨shown', hupdate'⟩ <;> simp_all
    rw [← Option.isSome_map (f := (·.value)), hvalue, Option.isSome_map]
    exact hsome

theorem Awaits.act {c : Controller} {tile : TileId} {w : World} {id : EntityId} {a : Action}
    (h : e.Awaits c tile) (spares : a.Spares id)
    (hblocked : ∀ ms, a = .tick ms → e.selected? = some tile → w.store.Unresolved c.tileset tile) :
    (e.act w id a).Awaits c tile := by
  cases ha : a.tickMs? with
  | some ms =>
    obtain rfl := Action.eq_tick_of_tickMs? ha
    exact h.pass (hblocked ms rfl) (w.tickMs ms)
  | none =>
    have hkept := e.act_kept w id ha
    refine ⟨?_, ?_, ?_⟩
    · rw [hkept.controller spares]
      exact h.controller
    · rcases hkept.signals spares with hsame | ⟨write, -, hwritten⟩
      · rw [hsame, h.signals]
      · rw [hwritten, Option.isSome_map, h.signals]
    · rw [hkept.tile, h.shown]

end Entity

theorem map_modify {α β : Type} {f : α → α} {g : β → β} {h : α → β} (hcomm : ∀ x, h (f x) = g (h x))
    (i : ℕ) (xs : List α) : (xs.modify i f).map h = (xs.map h).modify i g := by
  apply List.ext_getElem?
  intro j
  simp only [List.getElem?_map, List.getElem?_modify]
  cases xs[j]? with
  | none => rfl
  | some x => by_cases hij : i = j <;> simp [hij, hcomm]

namespace World

/-- The tile that the controller of an entity selects now. -/
def selected? (w : World) (id : EntityId) : Option TileId :=
  (w.entity? id).bind (·.selected?)

/-- The world in which nothing controls an entity. -/
def release (w : World) (id : EntityId) : World :=
  w.modify id Entity.released

theorem modify_congr {w : World} {id : EntityId} {f g : Entity → Entity}
    (h : ∀ e, w.entity? id = some e → f e = g e) : w.modify id f = w.modify id g := by
  have hentities : w.entities.modify id (·.map f) = w.entities.modify id (·.map g) := by
    apply List.ext_getElem?
    intro i
    rw [List.getElem?_modify, List.getElem?_modify]
    cases hi : w.entities[i]? with
    | none => rfl
    | some slot =>
      cases slot with
      | none => rfl
      | some e =>
        by_cases hid : id = i
        · have he : w.entity? id = some e := by rw [entity?, hid, hi, Option.join_some]
          simp [hid, h e he]
        · simp [hid]
  rw [modify, modify, hentities]

/-- What the pass of a tick makes of the entities, and what it tells of each. -/
def passed (w : World) (ms : UInt32) : List (Option (Entity × Option TileRef)) :=
  w.entities.map (·.map (Entity.pass w.store (w.tickMs ms)))

theorem tick_eq (w : World) (ms : UInt32) :
    w.tick ms =
      ({ w with clock := w.clock.stepMs ms, entities := (w.passed ms).map (·.map (·.1)) },
        ((w.passed ms).mapIdx fun id r => (r.bind (·.2)).map (HeldEvent.mk id)).filterMap id) :=
  rfl

theorem passed_release (w : World) (id : EntityId) (ms : UInt32) :
    (w.modify id fun e => (e.select w.store).released).passed ms =
      (w.passed ms).modify id (·.map fun r => (r.1.released, r.2)) := by
  apply map_modify
  intro slot
  cases slot with
  | none => rfl
  | some e => exact congrArg some (e.pass_released w.store (w.tickMs ms))

/-- A tick tells and leaves what it does for the world in which the controller of an entity has made
its choice and is gone. -/
theorem tick_release (w : World) (id : EntityId) (ms : UInt32) :
    (w.modify id fun e => (e.select w.store).released).tick ms =
      ((w.tick ms).1.release id, (w.tick ms).2) := by
  have hentities : ((w.passed ms).modify id (·.map fun r => (r.1.released, r.2))).map (·.map (·.1)) =
      ((w.passed ms).map (·.map (·.1))).modify id (·.map Entity.released) := by
    apply map_modify
    intro slot
    cases slot <;> rfl
  -- What is told of an entity does not depend on its controller.
  have hevents : (((w.passed ms).modify id (·.map fun r => (r.1.released, r.2))).mapIdx
        fun id r => (r.bind (·.2)).map (HeldEvent.mk id)) =
      (w.passed ms).mapIdx fun id r => (r.bind (·.2)).map (HeldEvent.mk id) := by
    apply List.ext_getElem?
    intro i
    rw [List.getElem?_mapIdx, List.getElem?_mapIdx, List.getElem?_modify]
    cases (w.passed ms)[i]? with
    | none => rfl
    | some slot => by_cases hid : id = i <;> cases slot <;> simp [hid]
  rw [tick_eq, passed_release, hentities, hevents]
  rfl

theorem modify_modify (w : World) (id : EntityId) (f g : Entity → Entity) :
    (w.modify id f).modify id g = w.modify id fun e => g (f e) := by
  simp only [modify, List.modify_modify_eq, Function.comp_def, Option.map_map]

def controller? (w : World) (id : EntityId) : Option Controller :=
  (w.entity? id).bind (·.controller)

theorem controller?_tick {w : World} {id : EntityId} {e : Entity} (he : w.entity? id = some e)
    (ms : UInt32) : (w.tick ms).1.controller? id = (e.select w.store).controller := by
  rw [controller?, entity?_tick, he, Option.map_some, Option.bind_some, Entity.pass_controller]

/-- A tick that starts a tile for the controller of an entity: the controller moves on to the tile,
and else the tick does what it does where nothing controls the entity and all of the switch was made
by hand before. -/
structure SwitchesTo (w : World) (id : EntityId) (tile : TileId) (ms : UInt32) : Prop where
  switch : ∃ c source shown cursor,
    w.controller? id = some c ∧ c.current ≠ tile ∧
    w.store.lookup c.tileset tile = .ok source ∧ w.store.start source = .ok (shown, cursor) ∧
    (w.tick ms).1.controller? id = some { c with current := tile } ∧
    ((w.modify id (Entity.Switch.apply ⟨tile, shown, cursor⟩)).release id).tick ms =
      ((w.tick ms).1.release id, (w.tick ms).2)

variable {w : World} {id : EntityId} {e : Entity} {c : Controller} {tile : TileId}

theorem switchesTo_of_awaits (he : w.entity? id = some e) (h : e.Awaits c tile)
    (hselected : w.selected? id = some tile) (hresolved : ¬ w.store.Unresolved c.tileset tile)
    (ms : UInt32) : w.SwitchesTo id tile ms := by
  obtain ⟨current, hc, hne⟩ := h.controller
  obtain ⟨signals, hs⟩ := Option.isSome_iff_exists.mp h.signals
  obtain ⟨shownNow, ht⟩ := Option.isSome_iff_exists.mp h.shown
  obtain ⟨source, shown, cursor, hl, hstart⟩ := (w.store.not_unresolved_iff ..).mp hresolved
  have hsel : ({ c with current } : Controller).selected signals = tile := by
    rw [selected?, he, Option.bind_some, Entity.selected?, hc, hs] at hselected
    exact Option.some.inj hselected
  have hswitch : e.switch? w.store = some ⟨tile, shown, cursor⟩ :=
    (Entity.switch?_eq_some_iff ..).mpr
      ⟨_, shownNow, signals, source, hc, ht, hs, hsel, hne.symm, hl, hstart⟩
  have hselect := Entity.select_of_switch? hswitch
  refine ⟨{ c with current }, source, shown, cursor, ?_, hne, hl, hstart, ?_, ?_⟩
  · rw [controller?, he, Option.bind_some, hc]
  · rw [controller?_tick he, hselect, Entity.Switch.apply, hc]
    rfl
  · rw [← tick_release, release, modify_modify]
    congr 1
    apply modify_congr
    intro e' he'
    obtain rfl : e = e' := Option.some.inj (he.symm.trans he')
    rw [hselect]

/-- As long as no tick finds the tile selected and able to start, the controller is not on it. -/
theorem run_awaits (he : w.entity? id = some e) (h : e.Awaits c tile) {actions : List Action}
    (spares : ∀ a ∈ actions, a.Spares id)
    (hblocked : ∀ t ∈ w.ticks actions, t.1.selected? id = some tile →
      t.1.store.Unresolved c.tileset tile) :
    ∃ e', (w.run actions).entity? id = some e' ∧ e'.Awaits c tile := by
  induction actions generalizing w e with
  | nil => exact ⟨e, he, h⟩
  | cons a actions ih =>
    have hfirst : (e.act w id a).Awaits c tile := by
      refine h.act (spares a List.mem_cons_self) ?_
      rintro ms rfl hselected
      refine hblocked (w, ms) (by rw [ticks_cons_tick]; exact List.mem_cons_self) ?_
      rw [selected?, he, Option.bind_some, hselected]
    refine ih (act_entity? he a) hfirst (fun b hb => spares b (List.mem_cons_of_mem a hb)) ?_
    intro t ht
    exact hblocked t (List.mem_append_right _ ht)

/-- A controller that selects a tile which cannot be started does nothing in that tick, and nothing is
told or left that would not be without it. The first later tick that finds the tile selected and able
to start switches to it, whatever happened in between. -/
theorem tick_unresolved_retried (he : w.entity? id = some e) (hc : e.controller = some c)
    (hselected : w.selected? id = some tile) (hne : tile ≠ c.current)
    (hunresolved : w.store.Unresolved c.tileset tile) (ms : UInt32) :
    (w.tick ms).1.controller? id = some c ∧
    (w.release id).tick ms = ((w.tick ms).1.release id, (w.tick ms).2) ∧
    (e.tile.isSome = true → ∀ actions : List Action, (∀ a ∈ actions, a.Spares id) →
      (∀ t ∈ (w.act (.tick ms)).ticks actions, t.1.selected? id = some tile →
        t.1.store.Unresolved c.tileset tile) →
      let later := (w.act (.tick ms)).run actions
      later.selected? id = some tile → ¬ later.store.Unresolved c.tileset tile →
      ∀ ms', later.SwitchesTo id tile ms') := by
  have hselected' : e.selected? = some tile := by
    rwa [selected?, he, Option.bind_some] at hselected
  have hstays : e.select w.store = e :=
    Entity.select_of_no_switch (Entity.switch?_of_unresolved hc hselected' hunresolved)
  refine ⟨?_, ?_, ?_⟩
  · rw [controller?_tick he, hstays, hc]
  · rw [← tick_release, release]
    congr 1
    apply modify_congr
    intro e' he'
    obtain rfl : e = e' := Option.some.inj (he.symm.trans he')
    rw [hstays]
  · intro hshown actions spares hblocked later hlater hresolved ms'
    have hawaits : e.Awaits c tile := by
      refine ⟨⟨c.current, hc, hne.symm⟩, ?_, hshown⟩
      rw [Entity.selected?, hc] at hselected'
      cases hs : e.signals with
      | none => simp [hs] at hselected'
      | some signals => rfl
    -- The failed tick is the first of the ticks that leave the controller waiting.
    have hblocked' : ∀ t ∈ w.ticks (.tick ms :: actions), t.1.selected? id = some tile →
        t.1.store.Unresolved c.tileset tile := by
      intro t ht
      rw [ticks_cons_tick] at ht
      rcases List.mem_cons.mp ht with rfl | ht
      · exact fun _ => hunresolved
      · exact hblocked t ht
    have hspares : ∀ a ∈ Action.tick ms :: actions, a.Spares id := by
      intro a ha
      rcases List.mem_cons.mp ha with rfl | ha
      · intro controller signals h
        cases h
      · exact spares a ha
    obtain ⟨e', he', hawaits'⟩ := run_awaits he hawaits hspares hblocked'
    exact switchesTo_of_awaits he' hawaits' hlater hresolved ms'

/-- A lamp is to be lit by a track of a tileset that is published only after two ticks. -/
theorem tick_unresolved_retried_lamp :
    let tile (id : TileId) (animation : Option Animation) : Tile :=
      ⟨"lamp.json", id, ⟨16, 16⟩, [], [], animation⟩
    let lamp : Tileset :=
      ⟨"lamp.json", "lamp", ⟨16, 16⟩, [tile 0 none, tile 1 (some (.external "fire.json"))], [], []⟩
    let c : Controller := .start "lamp.json" 0 [⟨.hasFlag "lit", 1⟩]
    let e : Entity :=
      { tile := some (.fresh ⟨"lamp.json", 0⟩), position := some (.fresh .zero), shapes := some []
        controller := some c, signals := some ⟨["lit"], [], []⟩ }
    let w : World := ⟨default, ⟨[lamp], by simp⟩, {}, [some e]⟩
    let fire : Authored.Tileset :=
      ⟨"fire", 16, 16, none, none, [⟨0, none, none, [], [], [⟨0, 100⟩]⟩]⟩
    let later := (w.act (.tick 40)).run [.tick 40, .insert "fire.json" fire {}]
    w.selected? 0 = some 1 ∧ w.store.Unresolved "lamp.json" 1 ∧
      (w.tick 40).1.controller? 0 = some c ∧
      later.selected? 0 = some 1 ∧ ¬ later.store.Unresolved "lamp.json" 1 ∧
      later.SwitchesTo 0 1 40 := by
  intro tile lamp c e w fire later
  have hunresolved : w.store.Unresolved "lamp.json" 1 := by
    have hfound : w.store.lookup "lamp.json" 1 = .ok (tile 1 (some (.external "fire.json"))) := by
      decide +kernel
    refine .broken hfound ⟨rfl, ?_⟩
    have hbroken : w.store.resolveReference (tile 1 (some (.external "fire.json"))) =
        .error (.brokenReference "lamp.json" 1 "fire.json") := by decide +kernel
    intro ref
    rw [hbroken]
    simp
  have hresolved : ¬ later.store.Unresolved "lamp.json" 1 := by
    refine (Store.not_unresolved_iff ..).mpr
      ⟨tile 1 (some (.external "fire.json")), ⟨"fire.json", 0⟩, some (.start ⟨"fire.json", 0⟩), ?_, ?_⟩
    · decide +kernel
    · decide +kernel
  have hselected : later.selected? 0 = some 1 := by decide +kernel
  have hselect : w.selected? 0 = some 1 := by decide +kernel
  have htick := tick_unresolved_retried (w := w) (e := e) (c := c) rfl rfl hselect (by decide)
    hunresolved 40
  refine ⟨hselect, hunresolved, htick.1, hselected, hresolved, ?_⟩
  refine htick.2.2 rfl [.tick 40, .insert "fire.json" fire {}] ?_ ?_ hselected hresolved 40
  · intro a ha controller signals hattach
    rw [hattach] at ha
    simp at ha
  · intro t ht
    -- Only the second tick lies in between, and the first has left the store as it was.
    have htime : t = (w.act (.tick 40), 40) := by simpa [ticks, Action.tickMs?] using ht
    rw [htime]
    exact fun _ => hunresolved

end World

end TileWorld
