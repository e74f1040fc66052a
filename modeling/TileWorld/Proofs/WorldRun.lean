import TileWorld.Proofs.EntityPass
import TileWorld.World.Basic

/-! Runs of a world: whatever a host program does to it between and with its ticks, in any order.
What one action may do to the store and to an entity is said here once. -/
namespace TileWorld

/-- One thing that a host program does to a world. What fails leaves the world as it is, but the
files before the first that fails stay published. -/
inductive Action where
  /-- Publishes files under the settings of the world. -/
  | loadFiles (files : FileView) (paths : List String)
  | loadFile (files : FileView) (root path : String) (policy : HoldPolicy)
  | loadText (id text : String) (policy : HoldPolicy)
  /-- Loads a description and publishes the tileset. -/
  | insert (id : String) (source : Authored.Tileset) (policy : HoldPolicy)
  | spawn (tileset : String) (tile : TileId) (place : Placement)
  | spawnPacked (tileset : String) (cell : UInt16) (position : Point)
  /-- Puts a controller and signals on an entity, in place of earlier ones. -/
  | attach (id : EntityId) (controller : Controller) (signals : Signals)
  /-- Changes the signals of an entity in any way, if it has some. -/
  | signal (id : EntityId) (write : Signals → Signals)
  | move (id : EntityId) (position : Point)
  | turn (id : EntityId) (flip : Flip)
  /-- Sets the time scale of the clock. -/
  | rescale (scale : Float32)
  | tick (ms : UInt32)

namespace World

/-- The world after an action. -/
def act (w : World) : Action → World
  | .loadFiles files paths => (w.loadFiles files paths).2
  | .loadFile files root path policy =>
    { w with store := (w.store.publishFile files root path policy).2 }
  | .loadText id text policy => { w with store := (w.store.publishText id text policy).2 }
  | .insert id source policy =>
    { w with store := (w.store.offer (Tileset.load id source policy)).2 }
  | .spawn tileset tile place => (w.add tileset tile place).2
  | .spawnPacked tileset cell position => (w.addPacked tileset cell position).2
  | .attach id controller signals =>
    w.modify id fun e => { e with controller := some controller, signals := some signals }
  | .signal id write => w.modify id fun e => { e with signals := e.signals.map write }
  | .move id position => w.modify id fun e => { e with position := some (.fresh position) }
  | .turn id flip => w.modify id fun e => { e with flip := some (.fresh flip) }
  | .rescale scale => { w with clock := { w.clock with scale } }
  | .tick ms => (w.tick ms).1

/-- The world after actions, one after the other. -/
def run (w : World) (actions : List Action) : World :=
  actions.foldl act w

@[simp]
theorem run_nil (w : World) : w.run [] = w :=
  rfl

@[simp]
theorem run_append (w : World) (actions later : List Action) :
    w.run (actions ++ later) = (w.run actions).run later :=
  List.foldl_append

@[simp]
theorem run_singleton (w : World) (a : Action) : w.run [a] = w.act a :=
  rfl

/-- The scaled milliseconds of a tick. -/
def tickMs (w : World) (ms : UInt32) : UInt32 :=
  (w.clock.stepMs ms).deltaMs

/-- A tick passes over every entity, for one and the same time. -/
theorem entity?_tick (w : World) (ms : UInt32) (i : EntityId) :
    (w.tick ms).1.entity? i = (w.entity? i).map fun e => (e.pass w.store (w.tickMs ms)).1 := by
  simp only [tick, pass, entity?, tickMs, List.getElem?_map]
  rcases w.entities[i]? with _ | _ | e <;> rfl

theorem entity?_modify (w : World) (id i : EntityId) (f : Entity → Entity) :
    (w.modify id f).entity? i = if id = i then (w.entity? i).map f else w.entity? i := by
  simp only [modify, entity?, List.getElem?_modify]
  split
  · rcases w.entities[i]? with _ | _ | e <;> rfl
  · rw [id_map']

theorem entity?_insert (w : World) (e : Entity) (i : EntityId) :
    (w.insert e).2.entity? i = if i = w.entities.length then some e else w.entity? i := by
  simp only [insert, entity?]
  split
  next h => simp [h]
  next h =>
    rcases Nat.lt_or_ge i w.entities.length with hi | hi
    · rw [List.getElem?_append_left hi]
    · have hlt : w.entities.length < i := Nat.lt_of_le_of_ne hi (Ne.symm h)
      have hout : (w.entities ++ [some e])[i]? = none := by
        rw [List.getElem?_eq_none_iff, List.length_append, List.length_singleton]
        exact hlt
      rw [hout, List.getElem?_eq_none_iff.mpr hi]

theorem entity?_insert_self (w : World) (e : Entity) :
    (w.insert e).2.entity? w.entities.length = some e := by
  rw [entity?_insert, if_pos rfl]

/-- A spawn puts its entity behind all others, or fails and leaves the world alone. -/
theorem add_cases (w : World) (tileset : String) (tile : TileId) (place : Placement) :
    (∃ e, Entity.spawn w.store tileset tile place = .error e ∧
      w.add tileset tile place = (.error e, w)) ∨
    ∃ e, Entity.spawn w.store tileset tile place = .ok e ∧
      w.add tileset tile place = (.ok w.entities.length, (w.insert e).2) := by
  simp only [add]
  cases h : Entity.spawn w.store tileset tile place with
  | error e => exact Or.inl ⟨e, rfl, rfl⟩
  | ok e => exact Or.inr ⟨e, rfl, rfl⟩

theorem spawn_eq_ok_iff (w w' : World) (tileset : String) (tile : TileId) (place : Placement)
    (id : EntityId) :
    w.spawn tileset tile place = .ok (id, w') ↔
      ∃ e, Entity.spawn w.store tileset tile place = .ok e ∧ w.insert e = (id, w') := by
  rw [spawn, onSuccess_eq_ok_iff]
  rcases w.add_cases tileset tile place with ⟨e, he, hadd⟩ | ⟨e, he, hadd⟩
  · simp [he, hadd]
  · simp [he, hadd, insert]

theorem add_eq_error_iff (w : World) (tileset : String) (tile : TileId) (place : Placement)
    (e : Error) :
    (w.add tileset tile place).1 = .error e ↔
      Entity.spawn w.store tileset tile place = .error e := by
  rcases w.add_cases tileset tile place with ⟨e', he, hadd⟩ | ⟨e', he, hadd⟩ <;> simp [he, hadd]

/-- A failed spawn hands back the world that it was given. -/
theorem add_of_error {w : World} {tileset : String} {tile : TileId} {place : Placement} {e : Error}
    (h : (w.add tileset tile place).1 = .error e) : (w.add tileset tile place).2 = w := by
  rcases w.add_cases tileset tile place with ⟨_, -, hadd⟩ | ⟨_, -, hadd⟩
  · rw [hadd]
  · rw [hadd] at h
    cases h

/-- Every action only publishes tilesets, if any. -/
theorem act_published (w : World) (a : Action) : w.store.Published (w.act a).store := by
  have hadd (tileset : String) (tile : TileId) (place : Placement) :
      w.store.Published (w.add tileset tile place).2.store := by
    rcases w.add_cases tileset tile place with ⟨_, -, h⟩ | ⟨_, -, h⟩ <;>
      exact h ▸ .refl
  cases a with
  | loadFiles files paths => exact Store.loadFiles_published ..
  | loadFile files root path policy => exact Store.publishFile_published ..
  | loadText id text policy => exact Store.publishText_published ..
  | insert id source policy => exact w.store.offer_published fun _ h => ⟨id, source, policy, h⟩
  | spawn tileset tile place => exact hadd tileset tile place
  | spawnPacked tileset cell position => exact hadd ..
  | attach | signal | move | turn | rescale | tick => exact .refl

theorem run_published (w : World) (actions : List Action) :
    w.store.Published (w.run actions).store := by
  induction actions generalizing w with
  | nil => exact .refl
  | cons a actions ih => exact (w.act_published a).trans (ih (w.act a))

end World

/-- What an action may do to an entity that is there. -/
inductive Entity.Edit (w : World) (e : Entity) : Entity → Prop where
  | keep : Edit w e e
  | attach (controller : Controller) (signals : Signals) :
      Edit w e { e with controller := some controller, signals := some signals }
  | signal (write : Signals → Signals) : Edit w e { e with signals := e.signals.map write }
  | move (position : Point) : Edit w e { e with position := some (.fresh position) }
  | turn (flip : Flip) : Edit w e { e with flip := some (.fresh flip) }
  | pass (ms : UInt32) : Edit w e (e.pass w.store (w.tickMs ms)).1

namespace World

theorem modify_cases {w : World} {id i : EntityId} {f : Entity → Entity} {e' : Entity}
    (h : (w.modify id f).entity? i = some e') (hf : ∀ e, Entity.Edit w e (f e)) :
    ∃ e, w.entity? i = some e ∧ Entity.Edit w e e' := by
  rw [entity?_modify] at h
  split at h
  · obtain ⟨e, he, rfl⟩ := Option.map_eq_some_iff.mp h
    exact ⟨e, he, hf e⟩
  · exact ⟨e', h, .keep⟩

/-- After an action an entity is one that was there, edited, or it was spawned. -/
theorem act_cases {w : World} {a : Action} {i : EntityId} {e' : Entity}
    (h : (w.act a).entity? i = some e') :
    (∃ e, w.entity? i = some e ∧ Entity.Edit w e e') ∨
      ∃ tileset tile place, Entity.spawn w.store tileset tile place = .ok e' := by
  have hkeep (hi : w.entity? i = some e') : ∃ e, w.entity? i = some e ∧ Entity.Edit w e e' :=
    ⟨e', hi, .keep⟩
  have hadd (tileset : String) (tile : TileId) (place : Placement)
      (hi : (w.add tileset tile place).2.entity? i = some e') :
      (∃ e, w.entity? i = some e ∧ Entity.Edit w e e') ∨
        ∃ tileset tile place, Entity.spawn w.store tileset tile place = .ok e' := by
    rcases w.add_cases tileset tile place with ⟨_, -, hw⟩ | ⟨e, he, hw⟩
    · rw [hw] at hi
      exact Or.inl (hkeep hi)
    · rw [hw, entity?_insert] at hi
      split at hi
      · cases hi
        exact Or.inr ⟨tileset, tile, place, he⟩
      · exact Or.inl (hkeep hi)
  -- Publishing and spawning leave all entities that are there, and the rest edits them.
  cases a with
  | loadFiles | loadFile | loadText | insert => exact Or.inl (hkeep h)
  | spawn tileset tile place => exact hadd tileset tile place h
  | spawnPacked tileset cell position =>
    exact hadd tileset (Flip.decode cell).1 ⟨position, (Flip.decode cell).2⟩ h
  | attach id controller signals =>
    exact Or.inl (modify_cases h fun e => .attach controller signals)
  | signal id write => exact Or.inl (modify_cases h fun e => .signal write)
  | move id position => exact Or.inl (modify_cases h fun e => .move position)
  | turn id flip => exact Or.inl (modify_cases h fun e => .turn flip)
  | rescale scale => exact Or.inl (hkeep h)
  | tick ms =>
    obtain ⟨e, he, rfl⟩ := Option.map_eq_some_iff.mp ((entity?_tick w ms i).symm.trans h)
    exact Or.inl ⟨e, he, .pass ms⟩

/-- What spawning establishes and edits keep, in a store that only grows, holds of all entities in
every world that a run reaches. -/
theorem run_invariant {P : Store → Entity → Prop}
    (grows : ∀ s s' e, s.Grows s' → P s e → P s' e)
    (spawn : ∀ s e tileset tile place, s.Closed → Entity.spawn s tileset tile place = .ok e → P s e)
    (edit : ∀ w e e', w.store.Closed → Entity.Edit w e e' → P w.store e → P w.store e')
    (w : World) (hc : w.store.Closed) (hw : ∀ i e, w.entity? i = some e → P w.store e)
    (actions : List Action) :
    ∀ i e, (w.run actions).entity? i = some e → P (w.run actions).store e := by
  induction actions generalizing w with
  | nil => exact hw
  | cons a actions ih =>
    have hp := w.act_published a
    refine ih (w.act a) (hp.closed hc) ?_
    -- The edit happens in the store before the action, which the action only makes grow.
    intro i e' he'
    apply grows _ _ e' hp.grows
    rcases act_cases he' with ⟨e, he, hedit⟩ | ⟨tileset, tile, place, hspawn⟩
    · exact edit w e e' hc hedit (hw i e he)
    · exact spawn _ _ tileset tile place hc hspawn

end World

end TileWorld
