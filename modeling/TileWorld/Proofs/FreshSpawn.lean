import Mathlib.Data.List.Induction
import TileWorld.Proofs.ShapeRefresh

/-! An entity under a controller looks like one that nothing controls, freshly spawned for the tile
that the controller is on. The two are followed side by side through runs of ticks and signals. -/
namespace TileWorld

/-- What an entity shows and plays, and the shapes that it collides with. -/
structure Look where
  tile : Option TileRef
  cursor : Option Cursor
  shapes : Option (List WorldShape)

namespace Entity

def look (e : Entity) : Look :=
  ⟨e.tile.map (·.value), e.cursor, e.shapes⟩

/-- An entity that stands at a place under a controller for a tileset. -/
structure Controlled (s : Store) (tileset : String) (place : Placement) (e : Entity) : Prop where
  controller : ∃ c, e.controller = some c ∧ c.tileset = tileset
  position : e.position.map (·.value) = some place.position
  flip : e.flip.map (·.value) = some place.flip
  placed : e.Placed
  upToDate : e.UpToDate s

/-- An entity that nothing controls and that is like another one, up to its shapes, which only a
pass brings up to date. -/
structure MirroredBy (s : Store) (e e' : Entity) : Prop where
  alike : e.Alike e'
  free : e'.controller = none
  placed : e'.Placed
  upToDate : e'.UpToDate s

variable {s : Store} {tileset : String} {tile : TileId} {place : Placement} {e e' : Entity}

theorem select_of_free (s : Store) (h : e.controller = none) : e.select s = e :=
  select_of_no_switch (by simp [switch?, h])

/-- A switch stays within the tileset, and nothing else touches the controller. -/
theorem select_controller (h : ∃ c, e.controller = some c ∧ c.tileset = tileset) :
    ∃ c, (e.select s).controller = some c ∧ c.tileset = tileset := by
  obtain ⟨c, hc, ht⟩ := h
  rw [select_eq]
  cases e.switch? s with
  | none => exact ⟨c, hc, ht⟩
  | some w => exact ⟨{ c with current := w.selected }, by simp [Switch.apply, hc], ht⟩

theorem Controlled.pass (h : e.Controlled s tileset place) (deltaMs : UInt32) :
    (e.pass s deltaMs).1.Controlled s tileset place := by
  have ha := e.pass_alike s deltaMs
  have hsel := e.select_retiled s
  have hplay := (e.select s).play_retiled s deltaMs
  refine ⟨?_, ?_, ?_, pass_placed h.placed s deltaMs, fun _ => pass_shapes h.placed h.upToDate _⟩
  · rw [pass_controller]
    exact select_controller h.controller
  · rw [ha.position, hplay.position, hsel.position, h.position]
  · rw [ha.flip, hplay.flip, hsel.flip, h.flip]

/-- The spawn of a tile stays like the same entity under a controller. -/
theorem spawn_controlled (h : spawn s tileset tile place = .ok e) (rules : List Rule)
    (signals : Signals) :
    let controlled := { e with
      controller := some (Controller.start tileset tile rules), signals := some signals }
    controlled.Controlled s tileset place ∧ controlled.MirroredBy s e := by
  obtain ⟨hp, hm⟩ := spawn_placed h
  obtain ⟨_, _, _, _, _, rfl⟩ := (spawn_eq_ok_iff ..).mp h
  refine ⟨⟨⟨_, rfl, rfl⟩, rfl, rfl, ?_, upToDate_of_moved hm⟩, ?_⟩
  · exact ⟨hp.tile, hp.position, hp.flip, hp.shapes⟩
  · exact ⟨⟨rfl, rfl, rfl, rfl⟩, rfl, hp, upToDate_of_moved hm⟩

/-- A switch leaves what a spawn of the tile switched to leaves: both start the same tile. -/
theorem Controlled.respawn (h : e.Controlled s tileset place) {w : Switch}
    (hw : e.switch? s = some w) :
    ∃ fresh, spawn s tileset w.selected place = .ok fresh ∧
      (e.select s).MirroredBy s fresh := by
  obtain ⟨c, hc, ht⟩ := h.controller
  obtain ⟨c', tile, _, source, hc', htile, _, _, _, hl, hstart⟩ := (switch?_eq_some_iff ..).mp hw
  obtain rfl : c = c' := Option.some.inj (hc.symm.trans hc')
  have hspawn := (spawn_eq_ok_iff s tileset w.selected place _).mpr
    ⟨source, w.shown, w.cursor, ht ▸ hl, hstart, rfl⟩
  obtain ⟨hp, hm⟩ := spawn_placed hspawn
  refine ⟨_, hspawn, ⟨?_, ?_, ?_, ?_⟩, rfl, hp, upToDate_of_moved hm⟩
  · simp [select_of_switch? hw, Switch.apply, htile]
  · rw [(e.select_retiled s).position, h.position]
    rfl
  · rw [(e.select_retiled s).flip, h.flip]
    rfl
  · rw [select_of_switch? hw]
    rfl

/-- A pass keeps likeness to an entity that nothing controls, and makes the shapes the same. -/
theorem MirroredBy.pass (hc : e.Controlled s tileset place) (h : (e.select s).MirroredBy s e')
    (deltaMs : UInt32) :
    (e.pass s deltaMs).1.MirroredBy s (e'.pass s deltaMs).1 ∧
      (e.pass s deltaMs).1.look = (e'.pass s deltaMs).1.look := by
  have hsel : e'.select s = e' := select_of_free s h.free
  -- Both are played from like states; the shapes follow from tile and place on either side.
  have ha : (e.pass s deltaMs).1.Alike (e'.pass s deltaMs).1 := by
    have hplayed := h.alike.play s deltaMs
    have ha' := e'.pass_alike s deltaMs
    rw [hsel] at ha'
    exact (e.pass_alike s deltaMs).trans (hplayed.trans ha'.symm)
  have hs' := pass_shapes h.placed h.upToDate deltaMs
  have hshapes : (e.pass s deltaMs).1.shapes = (e'.pass s deltaMs).1.shapes := by
    rw [pass_shapes hc.placed hc.upToDate, hs', ha.currentShapes? s]
  refine ⟨⟨ha, ?_, pass_placed h.placed s deltaMs, fun _ => hs'⟩, ?_⟩
  · rw [pass_controller, hsel, h.free]
  · simp only [look, ha.tile, ha.cursor, hshapes]

end Entity

/-- Ticks and writes of signals: what leaves the store and all places alone. -/
inductive Action.Quiet : Action → Prop where
  | tick (ms : UInt32) : Quiet (.tick ms)
  | signal (id : EntityId) (write : Signals → Signals) : Quiet (.signal id write)

def Action.isTick : Action → Bool
  | .tick _ => true
  | _ => false

namespace World

def look? (w : World) (id : EntityId) : Option Look :=
  (w.entity? id).map (·.look)

/-- The tile that the controller of an entity is on. -/
def current? (w : World) (id : EntityId) : Option TileId :=
  (w.entity? id).bind fun e => e.controller.map (·.current)

/-- No action of a run moves the controller of an entity to another tile. -/
def Steady (w : World) (id : EntityId) (actions : List Action) : Prop :=
  ∀ done, done <+: actions → (w.run done).current? id = w.current? id

/-- A world and an entity in it that nothing controls: the entity first spawned, if the controller
never switched in the run of `actions` from `start`, or else one spawned for the tile that the
controller is on, at the tick of the last switch. Either was only ticked since, as in the run. -/
inductive FreshSpawn (spawned start : World) (id : EntityId) (tileset : String) (place : Placement)
    (actions : List Action) : World → EntityId → Prop where
  | first (steady : start.Steady id actions) :
      FreshSpawn spawned start id tileset place actions
        (spawned.run (actions.filter (·.isTick))) id
  | switched {before after : List Action} {ms : UInt32} {current : TileId} {fresh : EntityId}
      {w : World} (split : actions = before ++ .tick ms :: after)
      (switch : (start.run (before ++ [.tick ms])).current? id ≠ (start.run before).current? id)
      (steady : (start.run (before ++ [.tick ms])).Steady id after)
      (now : (start.run actions).current? id = some current)
      (spawn : (start.run before).spawn tileset current place = .ok (fresh, w)) :
      FreshSpawn spawned start id tileset place actions
        (w.run ((.tick ms :: after).filter (·.isTick))) fresh

theorem Steady.nil (w : World) (id : EntityId) : w.Steady id [] := by
  intro done hd
  rw [List.prefix_nil.mp hd, run_nil]

theorem Steady.append {w : World} {id : EntityId} {actions : List Action} {a : Action}
    (h : w.Steady id actions)
    (ha : (w.run (actions ++ [a])).current? id = (w.run actions).current? id) :
    w.Steady id (actions ++ [a]) := by
  intro done hd
  rcases List.prefix_concat_iff.mp hd with rfl | hd
  · exact ha.trans (h actions List.prefix_rfl)
  · exact h done hd

variable {spawned start : World} {id fresh : EntityId} {tileset : String} {place : Placement}
  {actions : List Action} {w ref : World}

/-- An action that leaves the controller on its tile does not change which spawn is meant. -/
theorem FreshSpawn.append (h : FreshSpawn spawned start id tileset place actions ref fresh)
    {a : Action}
    (ha : (start.run (actions ++ [a])).current? id = (start.run actions).current? id) :
    FreshSpawn spawned start id tileset place (actions ++ [a])
      (ref.run ([a].filter (·.isTick))) fresh := by
  cases h with
  | first steady =>
    rw [← run_append, ← List.filter_append]
    exact .first (steady.append ha)
  | @switched before after ms current _ w split switch steady now spawn =>
    -- The last switch stays where it was; the action only lengthens what came after it.
    have hrun : start.run actions = (start.run (before ++ [.tick ms])).run after := by
      rw [split, ← run_append, List.append_assoc, List.singleton_append]
    rw [← run_append, ← List.filter_append, List.cons_append]
    refine .switched ?_ switch (steady.append ?_) (ha.trans now) spawn
    · rw [split, List.append_assoc, List.cons_append]
    · rw [run_append, ← hrun, ← run_append, ha]

/-- An entity that nothing controls follows a controlled one: it looks the same, in a world with the
same store and clock. -/
structure Follows (tileset : String) (place : Placement) (w : World) (id : EntityId) (ref : World)
    (fresh : EntityId) : Prop where
  store : ref.store = w.store
  clock : ref.clock = w.clock
  entities : ∃ e e', w.entity? id = some e ∧ ref.entity? fresh = some e' ∧
    e.Controlled w.store tileset place ∧ e.MirroredBy w.store e' ∧ e.look = e'.look

/-- A tick keeps pace if the entities are alike once the controller has chosen. -/
theorem follows_tick (w ref : World) (hs : ref.store = w.store) (hc : ref.clock = w.clock)
    {e e' : Entity} (he : w.entity? id = some e) (he' : ref.entity? fresh = some e')
    (hcontrolled : e.Controlled w.store tileset place)
    (hm : (e.select w.store).MirroredBy w.store e') (ms : UInt32) :
    Follows tileset place (w.act (.tick ms)) id (ref.act (.tick ms)) fresh := by
  have hms : ref.tickMs ms = w.tickMs ms := by rw [tickMs, tickMs, hc]
  obtain ⟨hm', hlook⟩ := hm.pass hcontrolled (w.tickMs ms)
  refine ⟨hs, congrArg (·.stepMs ms) hc, ?_⟩
  refine ⟨_, _, ?_, ?_, hcontrolled.pass (w.tickMs ms), hm', hlook⟩
  · rw [act, entity?_tick, he, Option.map_some]
  · rw [act, entity?_tick, he', Option.map_some, hs, hms]

theorem current?_tick {e : Entity} (he : w.entity? id = some e) (ms : UInt32) :
    (w.act (.tick ms)).current? id = (e.select w.store).controller.map (·.current) := by
  simp only [current?, act, entity?_tick, he, Option.map_some, Option.bind_some,
    Entity.pass_controller]

theorem Follows.signal (h : Follows tileset place w id ref fresh) (i : EntityId)
    (write : Signals → Signals) :
    Follows tileset place (w.act (.signal i write)) id ref fresh ∧
      (w.act (.signal i write)).current? id = w.current? id := by
  obtain ⟨e, e', he, he', hc, hm, hlook⟩ := h.entities
  have hact : (w.act (.signal i write)).entity? id = some e ∨
      (w.act (.signal i write)).entity? id =
        some { e with signals := e.signals.map write } := by
    rw [act, entity?_modify, he]
    split
    · exact Or.inr rfl
    · exact Or.inl rfl
  rcases hact with hact | hact
  · refine ⟨⟨h.store, h.clock, e, e', hact, he', hc, hm, hlook⟩, ?_⟩
    rw [current?, hact, current?, he]
  · refine ⟨⟨h.store, h.clock, _, e', hact, he', ?_, ?_, hlook⟩, ?_⟩
    · exact ⟨hc.controller, hc.position, hc.flip,
        ⟨hc.placed.tile, hc.placed.position, hc.placed.flip, hc.placed.shapes⟩, hc.upToDate⟩
    · exact ⟨⟨hm.alike.tile, hm.alike.position, hm.alike.flip, hm.alike.cursor⟩, hm.free,
        hm.placed, hm.upToDate⟩
    · rw [current?, hact, current?, he]
      rfl

/-- A tick either leaves the controller on its tile, and the follower keeps pace, or the controller
switches, and a fresh spawn of the tile that it switches to keeps pace from this very tick on. -/
theorem Follows.tick (h : Follows tileset place w id ref fresh) (ms : UInt32) :
    (Follows tileset place (w.act (.tick ms)) id (ref.act (.tick ms)) fresh ∧
      (w.act (.tick ms)).current? id = w.current? id) ∨
    ∃ current fresh' w', (w.act (.tick ms)).current? id = some current ∧
      w.current? id ≠ some current ∧ w.spawn tileset current place = .ok (fresh', w') ∧
      Follows tileset place (w.act (.tick ms)) id (w'.act (.tick ms)) fresh' := by
  obtain ⟨e, e', he, he', hc, hm, _⟩ := h.entities
  cases hw : e.switch? w.store with
  | none =>
    have hsel := Entity.select_of_no_switch hw
    refine Or.inl ⟨follows_tick w ref h.store h.clock he he' hc (by rwa [hsel]) ms, ?_⟩
    rw [current?_tick he, hsel, current?, he, Option.bind_some]
  | some switch =>
    obtain ⟨c, _, _, _, hcontroller, _, _, _, hne, _⟩ := (Entity.switch?_eq_some_iff ..).mp hw
    obtain ⟨spawn, hspawn, hmirror⟩ := hc.respawn hw
    refine Or.inr ⟨switch.selected, w.entities.length, (w.insert spawn).2, ?_, ?_, ?_, ?_⟩
    · rw [current?_tick he, Entity.select_of_switch? hw, Entity.Switch.apply, hcontroller]
      rfl
    · rw [current?, he, Option.bind_some, hcontroller]
      exact fun heq => hne (Option.some.inj heq).symm
    · exact (spawn_eq_ok_iff ..).mpr ⟨spawn, hspawn, rfl⟩
    · -- The spawn leaves store and clock alone, so its world may be ticked along.
      exact follows_tick w (w.insert spawn).2 rfl rfl he (w.entity?_insert_self spawn) hc hmirror ms

theorem follows_attach (h : w.spawn tileset tile place = .ok (id, spawned)) (rules : List Rule)
    (signals : Signals) :
    Follows tileset place (spawned.act (.attach id (.start tileset tile rules) signals)) id
      spawned id := by
  obtain ⟨e, he, hi⟩ := (spawn_eq_ok_iff ..).mp h
  obtain ⟨rfl, rfl⟩ := Prod.mk.inj hi
  obtain ⟨hc, hm⟩ := Entity.spawn_controlled he rules signals
  have hthere := w.entity?_insert_self e
  refine ⟨rfl, rfl, _, e, ?_, hthere, hc, hm, rfl⟩
  rw [act, entity?_modify, if_pos rfl]
  exact congrArg _ hthere

/-- At every moment of a run of ticks and signals an entity with a controller looks like one that
nothing controls, which was spawned for the tile that the controller is on now, when it last
switched, and which was ticked alike since then. -/
theorem run_controlled_looks_fresh (w spawned : World) (id : EntityId) (tileset : String)
    (tile : TileId) (place : Placement) (hspawn : w.spawn tileset tile place = .ok (id, spawned))
    (rules : List Rule) (signals : Signals) (actions : List Action)
    (quiet : ∀ a ∈ actions, a.Quiet) :
    let start := spawned.act (.attach id (.start tileset tile rules) signals)
    ∃ ref fresh look, FreshSpawn spawned start id tileset place actions ref fresh ∧
      (start.run actions).look? id = some look ∧ ref.look? fresh = some look := by
  intro start
  have hfollows : ∃ ref fresh, FreshSpawn spawned start id tileset place actions ref fresh ∧
      Follows tileset place (start.run actions) id ref fresh := by
    -- From the end of the run: only its last action tells whether the spawn followed so far goes on.
    induction actions using List.reverseRecOn with
    | nil => exact ⟨spawned, id, .first (.nil start id), follows_attach hspawn rules signals⟩
    | append_singleton actions a ih =>
      obtain ⟨ref, fresh, hfresh, h⟩ := ih fun a ha => quiet a (List.mem_append_left _ ha)
      have hrun : start.run (actions ++ [a]) = (start.run actions).act a := by
        rw [run_append, run_singleton]
      cases quiet a (List.mem_append_right _ (List.mem_singleton_self a)) with
      | signal i write =>
        obtain ⟨hf, hcurrent⟩ := h.signal i write
        exact ⟨_, _, hfresh.append (by rw [hrun, hcurrent]), by rwa [hrun]⟩
      | tick ms =>
        rcases h.tick ms with ⟨hf, hcurrent⟩ | ⟨current, fresh', w', hcurrent, hne, hspawn', hf⟩
        · exact ⟨_, _, hfresh.append (by rw [hrun, hcurrent]), by rwa [hrun]⟩
        · -- A switch is the last one so far, and nothing has happened after it.
          refine ⟨_, fresh', .switched rfl ?_ (.nil _ id) (by rw [hrun, hcurrent]) hspawn', ?_⟩
          · rw [hrun, hcurrent]
            exact hne.symm
          · rwa [hrun]
  obtain ⟨ref, fresh, hfresh, hf⟩ := hfollows
  obtain ⟨e, e', he, he', _, _, hlook⟩ := hf.entities
  exact ⟨ref, fresh, e.look, hfresh, by rw [look?, he]; rfl, by rw [look?, he', hlook]; rfl⟩

/-- A gate that plays a track while closed, and whose controller opens it in the first tick. -/
theorem run_controlled_looks_fresh_gate :
    let track : Track := ⟨⟨10000, false⟩, [⟨0, 100⟩, ⟨1, 50⟩], by simp⟩
    let gate : Tile := ⟨"gate.json", 0, ⟨16, 16⟩, [], [], some (.inline 0)⟩
    let cells : List Tile := [1, 2].map (Tileset.plainTile "gate.json" ⟨16, 16⟩)
    let store : Store := ⟨[⟨"gate.json", "gate", ⟨16, 16⟩, gate :: cells, [track], [0]⟩], by simp⟩
    let w : World := ⟨default, store, {}, []⟩
    let place : Placement := default
    let spawned : World := { w with
      entities := [some
        { tile := some (.fresh ⟨"gate.json", 0⟩)
          position := some (.fresh place.position)
          flip := some (.fresh place.flip)
          cursor := some (.start ⟨"gate.json", 0⟩)
          shapes := some [] }] }
    let start := spawned.act
      (.attach 0 (.start "gate.json" 0 [⟨.hasFlag "open", 2⟩]) .empty)
    let actions : List Action := [.signal 0 (·.setFlag "open"), .tick 40]
    w.spawn "gate.json" 0 place = .ok (0, spawned) ∧
      (start.run actions).current? 0 = some 2 ∧
      ∃ ref fresh look, FreshSpawn spawned start 0 "gate.json" place actions ref fresh ∧
        (start.run actions).look? 0 = some look ∧ ref.look? fresh = some look := by
  intro track gate cells store w place spawned start actions
  have hlookup : w.store.lookup "gate.json" 0 = .ok gate := by decide +kernel
  have hresolve : w.store.resolve gate = .ok (some ⟨"gate.json", 0⟩) := by decide +kernel
  have hspawn : w.spawn "gate.json" 0 place = .ok (0, spawned) :=
    (spawn_eq_ok_iff ..).mpr ⟨_, Entity.spawn_of_resolve hlookup hresolve _, rfl⟩
  have quiet : ∀ a ∈ actions, a.Quiet := by
    simp only [actions, List.forall_mem_cons]
    exact ⟨.signal .., .tick .., by simp⟩
  refine ⟨hspawn, by decide +kernel, ?_⟩
  exact run_controlled_looks_fresh w _ 0 "gate.json" 0 place hspawn _ .empty actions quiet

end World

end TileWorld
