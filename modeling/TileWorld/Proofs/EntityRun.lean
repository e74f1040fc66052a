import TileWorld.Proofs.TimeSlicing
import TileWorld.Proofs.WorldRun

/-! One entity through a run: what every action makes of it, and what the ticks count. The clock and
the entities are moved by the same milliseconds. -/
namespace TileWorld

namespace Action

/-- The milliseconds of a tick, before scaling. -/
def tickMs? : Action → Option UInt32
  | .tick ms => some ms
  | _ => none

/-- Anything but the attachment of a controller to one entity. -/
def Spares (id : EntityId) (a : Action) : Prop :=
  ∀ controller signals, a ≠ .attach id controller signals

theorem eq_tick_of_tickMs? {a : Action} {ms : UInt32} (h : a.tickMs? = some ms) : a = .tick ms := by
  cases a with
  | tick ms' =>
    cases h
    rfl
  | _ => cases h

theorem tickMs?_eq_none {a : Action} (h : ∀ ms, a ≠ .tick ms) : a.tickMs? = none := by
  cases a with
  | tick ms => exact absurd rfl (h ms)
  | _ => rfl

end Action

namespace Entity

/-- The entity of an id after an action on its world. -/
def act (w : World) (id : EntityId) (e : Entity) : Action → Entity
  | .attach i controller signals =>
    if i = id then { e with controller := some controller, signals := some signals } else e
  | .signal i write => if i = id then { e with signals := e.signals.map write } else e
  | .move i position => if i = id then { e with position := some (.fresh position) } else e
  | .turn i flip => if i = id then { e with flip := some (.fresh flip) } else e
  | .tick ms => (e.pass w.store (w.tickMs ms)).1
  | _ => e

/-- What an action that is no tick leaves of an entity: only ticks play and show. -/
structure Kept (id : EntityId) (a : Action) (e e' : Entity) : Prop where
  tile : e'.tile = e.tile
  cursor : e'.cursor = e.cursor
  controller : a.Spares id → e'.controller = e.controller
  signals : a.Spares id → e'.signals = e.signals ∨
    ∃ write, a = .signal id write ∧ e'.signals = e.signals.map write

theorem Kept.refl (id : EntityId) (a : Action) (e : Entity) : Kept id a e e :=
  ⟨rfl, rfl, fun _ => rfl, fun _ => Or.inl rfl⟩

theorem act_kept (w : World) (id : EntityId) (e : Entity) {a : Action} (h : a.tickMs? = none) :
    Kept id a e (e.act w id a) := by
  -- The actions on one entity spare all others, and the rest are on no entity.
  cases a with
  | tick ms => cases h
  | attach i controller signals =>
    by_cases hi : i = id
    · subst hi
      have hnot {p : Prop} (hs : (Action.attach i controller signals).Spares i) : p :=
        absurd rfl (hs controller signals)
      rw [act, if_pos rfl]
      exact ⟨rfl, rfl, hnot, hnot⟩
    · rw [act, if_neg hi]
      exact .refl ..
  | signal i write =>
    by_cases hi : i = id
    · subst hi
      rw [act, if_pos rfl]
      exact ⟨rfl, rfl, fun _ => rfl, fun _ => Or.inr ⟨write, rfl, rfl⟩⟩
    · rw [act, if_neg hi]
      exact .refl ..
  | move i | turn i =>
    by_cases hi : i = id
    · rw [act, if_pos hi]
      exact ⟨rfl, rfl, fun _ => rfl, fun _ => Or.inl rfl⟩
    · rw [act, if_neg hi]
      exact .refl ..
  | _ => exact .refl ..

end Entity

namespace World

theorem entity?_lt {w : World} {id : EntityId} {e : Entity} (h : w.entity? id = some e) :
    id < w.entities.length := by
  by_contra hn
  have hout : w.entities[id]? = none := List.getElem?_eq_none_iff.mpr (Nat.le_of_not_lt hn)
  simp [entity?, hout] at h

/-- A spawn puts its entity under the id that it tells, and leaves store and clock alone. -/
theorem entity?_of_spawn {w w' : World} {tileset : String} {tile : TileId} {place : Placement}
    {id : EntityId} (h : w.spawn tileset tile place = .ok (id, w')) :
    ∃ e, Entity.spawn w.store tileset tile place = .ok e ∧ w'.entity? id = some e ∧
      w'.store = w.store ∧ w'.clock = w.clock := by
  obtain ⟨e, he, hi⟩ := (spawn_eq_ok_iff ..).mp h
  have hid : w.entities.length = id := congrArg Prod.fst hi
  have hw : (w.insert e).2 = w' := congrArg Prod.snd hi
  rw [← hid, ← hw]
  exact ⟨e, he, w.entity?_insert_self e, rfl, rfl⟩

/-- An entity stays under its id, whatever is done to the world. -/
theorem act_entity? {w : World} {id : EntityId} {e : Entity} (h : w.entity? id = some e)
    (a : Action) : (w.act a).entity? id = some (e.act w id a) := by
  -- Spawns put new entities behind all others, so they never take the place of this one.
  have hadd (tileset : String) (tile : TileId) (place : Placement) :
      (w.add tileset tile place).2.entity? id = some e := by
    rcases w.add_cases tileset tile place with ⟨_, -, hw⟩ | ⟨e', -, hw⟩
    · rw [hw, h]
    · rw [hw, entity?_insert, if_neg (entity?_lt h).ne, h]
  have hmodify (i : EntityId) (f : Entity → Entity) :
      (w.modify i f).entity? id = some (if i = id then f e else e) := by
    rw [entity?_modify, h]
    split
    · rfl
    · rfl
  cases a with
  | loadFiles | loadFile | loadText | insert => exact h
  | spawn tileset tile place => exact hadd ..
  | spawnPacked tileset cell position => exact hadd ..
  | attach i controller signals => exact hmodify i _
  | signal i write => exact hmodify i _
  | move i position => exact hmodify i _
  | turn i flip => exact hmodify i _
  | rescale scale => exact h
  | tick ms => exact (entity?_tick w ms id).trans (by rw [h]; rfl)

/-- What every action of a run keeps of an entity holds of it in the end. -/
theorem run_entity_invariant {P : World → Entity → Prop} {id : EntityId} {actions : List Action}
    (step : ∀ w e, ∀ a ∈ actions, P w e → P (w.act a) (e.act w id a)) {w : World} {e : Entity}
    (he : w.entity? id = some e) (h : P w e) :
    ∃ e', (w.run actions).entity? id = some e' ∧ P (w.run actions) e' := by
  induction actions generalizing w e with
  | nil => exact ⟨e, he, h⟩
  | cons a actions ih =>
    have hfirst := step w e a List.mem_cons_self h
    exact ih (fun w e b hb => step w e b (List.mem_cons_of_mem a hb)) (act_entity? he a) hfirst

/-- The ticks of a run: the world before each, and its milliseconds before scaling. -/
def ticks (w : World) : List Action → List (World × UInt32)
  | [] => []
  | a :: actions => (a.tickMs?.map fun ms => (w, ms)).toList ++ (w.act a).ticks actions

theorem ticks_cons_tick (w : World) (ms : UInt32) (actions : List Action) :
    w.ticks (.tick ms :: actions) = (w, ms) :: (w.act (.tick ms)).ticks actions :=
  rfl

theorem ticks_cons_of_none (w : World) {a : Action} (h : a.tickMs? = none)
    (actions : List Action) : w.ticks (a :: actions) = (w.act a).ticks actions := by
  rw [ticks, h]
  rfl

theorem ticks_ne_nil (w : World) {actions : List Action} (h : ∃ ms, .tick ms ∈ actions) :
    w.ticks actions ≠ [] := by
  obtain ⟨ms, hm⟩ := h
  induction actions generalizing w with
  | nil => cases hm
  | cons a actions ih =>
    rcases List.mem_cons.mp hm with rfl | hm
    · simp [ticks_cons_tick]
    · have hn := ih (w.act a) hm
      simp [ticks, hn]

/-- The scaled milliseconds that the ticks of a run count. -/
def deltas (w : World) (actions : List Action) : List UInt32 :=
  (w.ticks actions).map fun tick => tick.1.tickMs tick.2

theorem act_elapsedMs {w : World} {a : Action} (h : a.tickMs? = none) :
    (w.act a).clock.elapsedMs = w.clock.elapsedMs := by
  have hadd (tileset : String) (tile : TileId) (place : Placement) :
      (w.add tileset tile place).2.clock = w.clock := by
    rcases w.add_cases tileset tile place with ⟨_, -, hw⟩ | ⟨_, -, hw⟩ <;> rw [hw]
    rfl
  cases a with
  | tick ms => cases h
  | spawn | spawnPacked => exact congrArg Clock.elapsedMs (hadd ..)
  | _ => rfl

/-- The clock counts what the ticks count, as long as it does not overflow. -/
theorem run_elapsedMs (w : World) (actions : List Action)
    (fits : w.clock.elapsedMs.toNat + totalMs (w.deltas actions) < 2 ^ 64) :
    (w.run actions).clock.elapsedMs.toNat =
      w.clock.elapsedMs.toNat + totalMs (w.deltas actions) := by
  induction actions generalizing w with
  | nil => rfl
  | cons a actions ih =>
    cases ha : a.tickMs? with
    | none =>
      have hd : w.deltas (a :: actions) = (w.act a).deltas actions := by
        rw [deltas, ticks_cons_of_none w ha, deltas]
      have hclock : (w.act a).clock.elapsedMs = w.clock.elapsedMs := act_elapsedMs ha
      rw [hd, ← hclock] at fits ⊢
      exact ih (w.act a) fits
    | some ms =>
      obtain rfl := Action.eq_tick_of_tickMs? ha
      have htotal : totalMs (w.deltas (.tick ms :: actions)) =
          (w.tickMs ms).toNat + totalMs ((w.act (.tick ms)).deltas actions) := rfl
      rw [htotal] at fits ⊢
      have hstep : (w.act (.tick ms)).clock.elapsedMs.toNat =
          w.clock.elapsedMs.toNat + (w.tickMs ms).toNat := by
        change (w.clock.elapsedMs + (w.tickMs ms).toUInt64).toNat = _
        rw [UInt64.toNat_add, UInt32.toNat_toUInt64]
        exact Nat.mod_eq_of_lt (by omega)
      have hrest := ih (w.act (.tick ms)) (by omega)
      rw [hstep, Nat.add_assoc] at hrest
      exact hrest

end World

end TileWorld
