import Mathlib.Data.List.SplitBy
import TileWorld.Proofs.FreshSpawn
import TileWorld.Proofs.HeldFlag

/-! The events of holds in the life of one entity, cut into stretches where its controller switches.
A hold that is reached in a stretch is announced once, in the tick that reaches it. -/
namespace TileWorld

/-- What one tick shows of an entity. -/
structure Moment where
  /-- Whether the controller moved to another tile. -/
  switched : Bool
  /-- Whether the cursor stands on a hold frame in the end. -/
  held : Bool
  /-- The tile shown in the end. -/
  tile : Option TileRef
  /-- The events of the entity. -/
  announced : List HeldEvent

/-- A stretch that never holds announces nothing; any other announces one hold, in the first tick
that ends on a hold frame, with the tile shown then. -/
def AnnouncedOnce (id : EntityId) (stretch : List Moment) : Prop :=
  (∀ m ∈ stretch, m.held = false ∧ m.announced = []) ∨
  ∃ earlier m later tile, stretch = earlier ++ m :: later ∧
    (∀ x ∈ earlier, x.held = false ∧ x.announced = []) ∧
    m.held = true ∧ m.tile = some tile ∧ m.announced = [⟨id, tile⟩] ∧
    ∀ x ∈ later, x.announced = []

namespace Moment

/-- A tick in which a hold is announced if it is reached now, and not left if it was told before. -/
structure Follows (id : EntityId) (before : Bool) (m : Moment) : Prop where
  stays : before = true → m.held = true
  announced : ∃ tile, m.tile = some tile ∧
    m.announced = if m.held && !before then [⟨id, tile⟩] else []

/-- Ticks that follow each other; what is told before one is whether the last ended on a hold, unless
a switch made it forgotten. -/
def Chained (id : EntityId) : Bool → List Moment → Prop
  | _, [] => True
  | before, m :: ms => m.Follows id (before && !m.switched) ∧ Chained id m.held ms

variable {id : EntityId}

theorem Chained.append {before : Bool} {front back : List Moment}
    (h : Chained id before (front ++ back)) :
    Chained id before front ∧ ∃ told, Chained id told back ∧ (front = [] → told = before) := by
  induction front generalizing before with
  | nil => exact ⟨trivial, before, h, fun _ => rfl⟩
  | cons m front ih =>
    obtain ⟨hm, hrest⟩ := h
    obtain ⟨hfront, told, hback, _⟩ := ih hrest
    exact ⟨⟨hm, hfront⟩, told, hback, by simp⟩

theorem Chained.quiet {ms : List Moment} (h : Chained id true ms)
    (steady : ∀ m ∈ ms, m.switched = false) : ∀ m ∈ ms, m.announced = [] := by
  induction ms with
  | nil => simp
  | cons m ms ih =>
    obtain ⟨hm, hrest⟩ := h
    rw [steady m List.mem_cons_self] at hm
    -- The hold is not left, so it is told of before every later tick too.
    have hheld : m.held = true := hm.stays rfl
    rw [hheld] at hrest
    have hlater := ih hrest fun x hx => steady x (List.mem_cons_of_mem m hx)
    obtain ⟨tile, _, hnone⟩ := hm.announced
    rw [List.forall_mem_cons]
    exact ⟨by simpa using hnone, hlater⟩

theorem Chained.announcedOnce {ms : List Moment} (h : Chained id false ms)
    (steady : ∀ m ∈ ms.tail, m.switched = false) : AnnouncedOnce id ms := by
  induction ms with
  | nil => exact Or.inl (by simp)
  | cons m ms ih =>
    obtain ⟨hm, hrest⟩ := h
    obtain ⟨tile, htile, hannounced⟩ := hm.announced
    cases hheld : m.held with
    | true =>
      rw [hheld] at hrest
      refine Or.inr ⟨[], m, ms, tile, rfl, by simp, hheld, htile, ?_, hrest.quiet steady⟩
      simpa [hheld] using hannounced
    | false =>
      rw [hheld] at hrest
      have hnone : m.held = false ∧ m.announced = [] := ⟨hheld, by simpa [hheld] using hannounced⟩
      have hlater : ∀ x ∈ ms.tail, x.switched = false :=
        fun x hx => steady x (List.mem_of_mem_tail hx)
      rcases ih hrest hlater with hnever | ⟨earlier, first, later, shown, rfl, hearlier, hfirst⟩
      · refine Or.inl ?_
        rw [List.forall_mem_cons]
        exact ⟨hnone, hnever⟩
      · refine Or.inr ⟨m :: earlier, first, later, shown, rfl, ?_, hfirst⟩
        rw [List.forall_mem_cons]
        exact ⟨hnone, hearlier⟩

end Moment

theorem exists_front_of_mem_splitBy {α : Type} {r : α → α → Bool} {l part : List α}
    (h : part ∈ l.splitBy r) :
    ∃ front back, l = front ++ (part ++ back) ∧
      (front = [] ∨ ∃ x y rest, part = y :: rest ∧ r x y = false) := by
  obtain ⟨parts, parts', hparts⟩ := List.append_of_mem h
  have hl : l = parts.flatten ++ (part ++ parts'.flatten) := by
    rw [← List.flatten_cons, ← List.flatten_append, ← hparts, List.flatten_splitBy]
  refine ⟨parts.flatten, parts'.flatten, hl, ?_⟩
  -- The first part stands at the front, any other behind a cut from the one before it.
  rcases List.eq_nil_or_concat parts with rfl | ⟨parts, last, rfl⟩
  · exact Or.inl rfl
  · have hcuts := List.isChain_getLast_head_splitBy r l
    rw [hparts, List.isChain_append] at hcuts
    obtain ⟨_, hne, hr⟩ := hcuts.2.2 last (by simp) part (by simp)
    obtain ⟨y, rest, rfl⟩ := List.exists_cons_of_ne_nil hne
    exact Or.inr ⟨_, y, rest, rfl, hr⟩

theorem forall_mem_tail_of_isChain {α : Type} {p : α → Prop} {l : List α}
    (h : l.IsChain fun _ y => p y) : ∀ y ∈ l.tail, p y := by
  induction l with
  | nil => simp
  | cons x l ih =>
    obtain ⟨hfirst, hrest⟩ := List.isChain_cons.mp h
    cases l with
    | nil => simp
    | cons y l =>
      rw [List.tail_cons, List.forall_mem_cons]
      exact ⟨hfirst y rfl, ih hrest⟩

theorem Moment.Chained.stretches {id : EntityId} {ms : List Moment} (h : Chained id false ms) :
    ∀ stretch ∈ ms.splitBy fun _ m => !m.switched, AnnouncedOnce id stretch := by
  intro stretch hs
  obtain ⟨front, back, rfl, hcut⟩ := exists_front_of_mem_splitBy hs
  obtain ⟨_, told, hrest, htold⟩ := h.append
  have hchained := hrest.append.1
  have hsteady : ∀ m ∈ stretch.tail, m.switched = false := by
    have hchain := List.isChain_of_mem_splitBy (r := fun _ m : Moment => !m.switched) hs
    intro m hm
    simpa using forall_mem_tail_of_isChain hchain m hm
  -- Before its first tick nothing is told: it is the first of all, or it has switched.
  have hfresh : Chained id false stretch := by
    rcases hcut with rfl | ⟨_, m, rest, rfl, hm⟩
    · rwa [htold rfl] at hchained
    · have hswitched : m.switched = true := by simpa using hm
      obtain ⟨hfollows, hlater⟩ := hchained
      rw [hswitched] at hfollows
      refine ⟨?_, hlater⟩
      rw [Bool.false_and]
      simpa using hfollows
  exact hfresh.announcedOnce hsteady

/-- A controller is on another tile after its turn exactly if it switched. -/
theorem Entity.select_current_bne (s : Store) (e : Entity) :
    ((e.select s).controller.map (·.current) != e.controller.map (·.current)) =
      (e.switch? s).isSome := by
  cases hw : e.switch? s with
  | none => simp [select_of_no_switch hw]
  | some w =>
    obtain ⟨c, _, _, _, hc, _, _, _, hne, _⟩ := (switch?_eq_some_iff ..).mp hw
    rw [select_of_switch? hw, Switch.apply, hc]
    simpa using hne

namespace World

/-- The part of a tick that is about one entity. -/
def moment (w : World) (id : EntityId) (ms : UInt32) : Moment :=
  let (after, events) := w.tick ms
  { switched := after.current? id != w.current? id
    held := (after.entity? id).any (·.held after.store)
    tile := (after.entity? id).bind fun e => e.tile.map (·.value)
    announced := events.filter (·.entity = id) }

/-- The ticks in the life of an entity. -/
def moments (w : World) (id : EntityId) (actions : List Action) : List Moment :=
  (w.ticks actions).map fun tick => tick.1.moment id tick.2

theorem filter_events (passed : List (Option (Entity × Option TileRef))) (id : EntityId) :
    ((passed.mapIdx fun i e => (e.bind (·.2)).map (HeldEvent.mk i)).filterMap (fun e => e)).filter
        (·.entity = id) =
      ((passed[id]?.join.bind (·.2)).map (HeldEvent.mk id)).toList := by
  induction passed using List.reverseRecOn with
  | nil => rfl
  | append_singleton passed last ih =>
    rw [List.mapIdx_concat, List.filterMap_append, List.filter_append, ih]
    rcases Nat.lt_trichotomy id passed.length with hlt | rfl | hgt
    · rw [List.getElem?_append_left hlt]
      cases last.bind (·.2) with
      | none => simp
      | some tile => simp [hlt.ne']
    · cases hlast : last.bind (·.2) with
      | none => simp [hlast]
      | some tile => simp [hlast]
    · have hout : (passed ++ [last])[id]? = none := by
        rw [List.getElem?_eq_none_iff, List.length_append, List.length_singleton]
        exact hgt
      have hout' : passed[id]? = none := List.getElem?_eq_none_iff.mpr hgt.le
      cases last.bind (·.2) with
      | none => simp [hout, hout']
      | some tile => simp [hout, hout', hgt.ne]

theorem moment_eq {w : World} {id : EntityId} {e : Entity} (he : w.entity? id = some e)
    (ms : UInt32) :
    w.moment id ms =
      { switched := (e.switch? w.store).isSome
        held := (e.pass w.store (w.tickMs ms)).1.held w.store
        tile := (e.pass w.store (w.tickMs ms)).1.tile.map (·.value)
        announced := ((e.pass w.store (w.tickMs ms)).2.map (HeldEvent.mk id)).toList } := by
  have hafter : (w.tick ms).1.entity? id = some (e.pass w.store (w.tickMs ms)).1 := by
    rw [entity?_tick, he, Option.map_some]
  have hcurrent : ((w.tick ms).1.current? id != w.current? id) = (e.switch? w.store).isSome := by
    rw [show (w.tick ms).1.current? id = _ from current?_tick he ms, current?, he, Option.bind_some]
    exact Entity.select_current_bne w.store e
  have hevents : (w.tick ms).2.filter (·.entity = id) =
      ((e.pass w.store (w.tickMs ms)).2.map (HeldEvent.mk id)).toList := by
    have hentity : (w.entities.map (·.map (Entity.pass w.store (w.tickMs ms))))[id]?.join =
        (w.entity? id).map (Entity.pass w.store (w.tickMs ms)) := by
      rw [List.getElem?_map, entity?]
      rcases w.entities[id]? with _ | _ | _ <;> rfl
    have hfilter :=
      filter_events (w.entities.map (·.map (Entity.pass w.store (w.tickMs ms)))) id
    rw [hentity, he, Option.map_some, Option.bind_some] at hfilter
    exact hfilter
  simp only [moment, hafter, hcurrent, hevents, Option.any_some, Option.bind_some]
  rfl

theorem moment_follows {w : World} {id : EntityId} {e : Entity} (he : w.entity? id = some e)
    (h : e.Remembers w.store) (ms : UInt32) :
    (w.moment id ms).Follows id (e.notified && !(w.moment id ms).switched) := by
  have htells := h.pass (w.tickMs ms)
  obtain ⟨tile, ht, hevent⟩ := htells.event
  rw [← Option.not_isSome] at htells hevent
  rw [moment_eq he]
  refine ⟨htells.stays, tile.value, by rw [ht, Option.map_some], ?_⟩
  dsimp only
  rw [hevent]
  split
  · rfl
  · rfl

theorem moments_chained {w : World} {id : EntityId} {e : Entity} (he : w.entity? id = some e)
    (h : e.Remembers w.store) (actions : List Action) :
    Moment.Chained id e.notified (w.moments id actions) := by
  induction actions generalizing w e with
  | nil => trivial
  | cons a actions ih =>
    have hstays := act_entity? he a
    cases ha : a.tickMs? with
    | none =>
      obtain ⟨hkept, hnotified⟩ := h.act ha id
      have hlater := ih hstays hkept
      rwa [hnotified, moments, ← ticks_cons_of_none w ha, ← moments] at hlater
    | some ms =>
      obtain rfl := Action.eq_tick_of_tickMs? ha
      have htells := h.pass (w.tickMs ms)
      have hlater := ih hstays htells.remembers
      have hheld : (w.moment id ms).held = (e.act w id (.tick ms)).notified := by
        rw [moment_eq he]
        exact htells.notified.symm
      -- What the tick ends on is what its cursor has told of, and that is told before the next.
      refine ⟨moment_follows he h ms, ?_⟩
      rw [hheld]
      exact hlater

/-- Every hold that is reached is announced exactly once. Cut the life of an entity into stretches
where its controller, if it has one, switches: whatever is done to the world, a stretch in which a
tick ends on a hold frame announces one hold, in the first such tick and with the tile shown then,
and no other stretch announces any. -/
theorem run_holds_announced_once (w spawned : World) (id : EntityId) (tileset : String)
    (tile : TileId) (place : Placement) (hspawn : w.spawn tileset tile place = .ok (id, spawned))
    (controller : Option Controller) (signals : Option Signals) (actions : List Action) :
    let start := spawned.modify id fun e => { e with controller, signals }
    ∀ stretch ∈ (start.moments id actions).splitBy fun _ m => !m.switched,
      AnnouncedOnce id stretch := by
  intro start
  obtain ⟨e, he, hthere, hstore, _⟩ := entity?_of_spawn hspawn
  obtain ⟨hremembers, hnotified⟩ := Entity.spawn_remembers he
  have hstart : start.entity? id = some { e with controller, signals } := by
    rw [entity?_modify, if_pos rfl, hthere]
    rfl
  have hgrows : w.store.Grows start.store := hstore.symm ▸ Store.Grows.refl w.store
  have hchained := moments_chained hstart (hremembers.keep hgrows rfl rfl) actions
  have hfresh : Entity.notified { e with controller, signals } = false := hnotified
  rw [hfresh] at hchained
  exact hchained.stretches

/-- A door that opens, is put away and comes back: its two ticks on the hold frame announce it once,
and so does the stretch after the door came back. -/
theorem run_holds_announced_once_door :
    let track : Track := ⟨⟨10000, true⟩, [⟨1, 100⟩, ⟨2, 0⟩], by simp⟩
    let door : Tile := ⟨"door.json", 0, ⟨16, 16⟩, [], [], some (.inline 0)⟩
    let cells : List Tile := [1, 2, 3].map (Tileset.plainTile "door.json" ⟨16, 16⟩)
    let store : Store := ⟨[⟨"door.json", "door", ⟨16, 16⟩, door :: cells, [track], [0]⟩], by simp⟩
    let w : World := ⟨default, store, {}, []⟩
    let spawned : World := { w with
      entities := [some
        { tile := some (.fresh ⟨"door.json", 1⟩)
          position := some (.fresh default)
          flip := some (.fresh default)
          cursor := some (.start ⟨"door.json", 0⟩)
          shapes := some [] }] }
    let controller : Controller := .start "door.json" 0 [⟨.hasFlag "away", 3⟩]
    let start := spawned.modify 0 fun e =>
      { e with controller := some controller, signals := some .empty }
    let actions : List Action := [.tick 120, .tick 0, .signal 0 (·.setFlag "away"), .tick 5,
      .signal 0 (·.clearFlag "away"), .tick 30, .tick 70]
    let moments := start.moments 0 actions
    w.spawn "door.json" 0 default = .ok (0, spawned) ∧
      moments.map (·.switched) = [false, false, true, true, false] ∧
      moments.map (·.held) = [true, true, false, false, true] ∧
      ∀ stretch ∈ moments.splitBy fun _ m => !m.switched, AnnouncedOnce 0 stretch := by
  intro track door cells store w spawned controller start actions moments
  have hlookup : w.store.lookup "door.json" 0 = .ok door := by decide +kernel
  have hresolve : w.store.resolve door = .ok (some ⟨"door.json", 0⟩) := by decide +kernel
  have hspawn : w.spawn "door.json" 0 default = .ok (0, spawned) :=
    (spawn_eq_ok_iff ..).mpr ⟨_, Entity.spawn_of_resolve hlookup hresolve _, rfl⟩
  refine ⟨hspawn, by decide +kernel, by decide +kernel, ?_⟩
  exact run_holds_announced_once w spawned 0 "door.json" 0 default hspawn (some controller)
    (some .empty) actions

end World

end TileWorld
