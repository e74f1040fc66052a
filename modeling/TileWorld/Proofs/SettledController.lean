import TileWorld.Proofs.NamedSignals
import TileWorld.Proofs.UnresolvedTarget

/-! A controller has settled after one tick. Until a signal is written that its rules name, or the store
grows, it does nothing more: not for the held flag, if no rule asks for it, and not for a tile that
could not be started. -/
namespace TileWorld

namespace Entity

variable {s : Store} {e e' : Entity} {c : Controller}

theorem selected?_eq_some_iff (e : Entity) (tile : TileId) :
    e.selected? = some tile ↔
      ∃ c signals, e.controller = some c ∧ e.signals = some signals ∧ c.selected signals = tile := by
  rw [selected?]
  split
  next c signals hc hs => simp [hc, hs]
  next hnone =>
    constructor
    · intro h
      cases h
    · rintro ⟨c, signals, hc, hs, -⟩
      exact absurd hs (hnone c signals hc)

/-- A switch is to what is selected, from another tile. -/
theorem switch?_iff_selected? (s : Store) (e : Entity) (w : Switch) :
    e.switch? s = some w ↔
      e.tile.isSome = true ∧ e.selected? = some w.selected ∧
        ∃ c source, e.controller = some c ∧ w.selected ≠ c.current ∧
          s.lookup c.tileset w.selected = .ok source ∧
          s.start source = .ok (w.shown, w.cursor) := by
  rw [switch?_eq_some_iff, selected?_eq_some_iff]
  constructor
  · rintro ⟨c, tile, signals, source, hc, ht, hs, hsel, hstarts⟩
    exact ⟨by rw [ht, Option.isSome_some], ⟨c, signals, hc, hs, hsel⟩, c, source, hc, hstarts⟩
  · rintro ⟨ht, ⟨c, signals, hc, hs, hsel⟩, c', source, hc', hstarts⟩
    obtain ⟨tile, htile⟩ := Option.isSome_iff_exists.mp ht
    obtain rfl : c = c' := Option.some.inj (hc.symm.trans hc')
    exact ⟨c, tile, signals, source, hc, htile, hs, hsel, hstarts⟩

theorem switch?_congr (s : Store) (hc : e'.controller = e.controller)
    (ht : e'.tile.isSome = e.tile.isSome) (hsel : e'.selected? = e.selected?) :
    e'.switch? s = e.switch? s := by
  apply Option.ext
  intro w
  rw [switch?_iff_selected?, switch?_iff_selected?, hc, ht, hsel]

/-- Writes that leave the named signals leave what is selected, also where the controller has moved
on. -/
theorem selected?_of_write {write : Signals → Signals} {current : TileId}
    (hc : e.controller = some c) (hc' : e'.controller = some { c with current })
    (hs : e'.signals = e.signals.map write)
    (leaves : ∀ signals, Signals.AgreeOn c.names signals (write signals)) :
    e'.selected? = e.selected? := by
  rw [selected?, selected?, hc, hc', hs]
  cases e.signals with
  | none => rfl
  | some signals => exact congrArg some (Controller.selected_congr (leaves signals)).symm

/-- The controller of an entity finds nothing to switch to. -/
structure Settled (s : Store) (c : Controller) (e : Entity) : Prop where
  controller : e.controller = some c
  idle : e.switch? s = none

theorem Settled.select (h : e.Settled s c) : e.select s = e :=
  select_of_no_switch h.idle

theorem Settled.of_write {write : Signals → Signals} (h : e.Settled s c)
    (hc : e'.controller = some c) (ht : e'.tile.isSome = e.tile.isSome)
    (hs : e'.signals = e.signals.map write)
    (leaves : ∀ signals, Signals.AgreeOn c.names signals (write signals)) : e'.Settled s c := by
  have hselected := selected?_of_write h.controller hc hs leaves
  have hswitch := switch?_congr s (hc.trans h.controller.symm) ht hselected
  exact ⟨hc, hswitch.trans h.idle⟩

/-- A controller that has just chosen would choose the same again. -/
theorem select_settled (s : Store) (hc : e.controller = some c) (hheld : .flag heldFlag ∉ c.names) :
    ∃ current, (e.select s).Settled s { c with current } := by
  cases hw : e.switch? s with
  | none =>
    rw [select_of_no_switch hw]
    exact ⟨c.current, hc, hw⟩
  | some w =>
    have hc' : (w.apply e).controller = some { c with current := w.selected } := by
      rw [Switch.apply, hc]
      rfl
    have hselected : (w.apply e).selected? = e.selected? :=
      selected?_of_write hc hc' rfl fun signals => Signals.agreeOn_clearFlag signals hheld
    rw [select_of_switch? hw]
    refine ⟨w.selected, hc', ?_⟩
    cases hw' : (w.apply e).switch? s with
    | none => rfl
    | some w' =>
      -- A second switch would be to the selected tile, and the controller is on that one by now.
      obtain ⟨-, hfirst, -⟩ := (switch?_iff_selected? ..).mp hw
      obtain ⟨-, hagain, c', _, hc'', hne, -⟩ := (switch?_iff_selected? ..).mp hw'
      obtain rfl := Option.some.inj (hc''.symm.trans hc')
      rw [hfirst, hagain] at hselected
      exact absurd (Option.some.inj hselected) hne

theorem Retiled.isSome_tile (h : e.Retiled e') : e'.tile.isSome = e.tile.isSome := by
  rcases h.tile with hsame | ⟨shown, hupdate⟩
  · rw [hsame]
  · rw [hupdate, Option.isSome_map]

theorem pass_isSome_tile (s : Store) (e : Entity) (deltaMs : UInt32) :
    (e.pass s deltaMs).1.tile.isSome = (e.select s).tile.isSome := by
  have hplay := ((e.select s).play_retiled s deltaMs).isSome_tile
  have hvalue := congrArg Option.isSome (e.pass_alike s deltaMs).tile
  rwa [Option.isSome_map, Option.isSome_map, hplay] at hvalue

/-- After the choice of the controller, a pass writes no signal but the held flag. -/
theorem exists_write_pass (s : Store) (e : Entity) (deltaMs : UInt32) {names : List SignalName}
    (hheld : .flag heldFlag ∉ names) :
    ∃ write, (e.pass s deltaMs).1.signals = (e.select s).signals.map write ∧
      ∀ signals, Signals.AgreeOn names signals (write signals) := by
  rw [pass_signals, play_signals]
  split
  · exact ⟨_, rfl, fun signals => Signals.agreeOn_setFlag signals hheld⟩
  · exact ⟨id, (Option.map_id_apply).symm, Signals.AgreeOn.refl names⟩

theorem Settled.pass_of_select (h : (e.select s).Settled s c) (hheld : .flag heldFlag ∉ c.names)
    (deltaMs : UInt32) : (e.pass s deltaMs).1.Settled s c := by
  obtain ⟨write, hs, leaves⟩ := e.exists_write_pass s deltaMs hheld
  refine h.of_write ?_ (e.pass_isSome_tile s deltaMs) hs leaves
  rw [pass_controller, h.controller]

/-- What leaves the named signals and the store leaves the controller settled, ticks included. -/
theorem Settled.act {w : World} {id : EntityId} {a : Action} (h : e.Settled w.store c)
    (hheld : .flag heldFlag ∉ c.names) (spares : a.Spares id)
    (leaves : ∀ write, a = .signal id write → ∀ signals,
      Signals.AgreeOn c.names signals (write signals)) :
    (e.act w id a).Settled w.store c := by
  cases ha : a.tickMs? with
  | some ms =>
    obtain rfl := Action.eq_tick_of_tickMs? ha
    have hselect : (e.select w.store).Settled w.store c := by rwa [h.select]
    exact hselect.pass_of_select hheld (w.tickMs ms)
  | none =>
    have hkept := e.act_kept w id ha
    have hc := (hkept.controller spares).trans h.controller
    have ht := congrArg Option.isSome hkept.tile
    rcases hkept.signals spares with hsame | ⟨write, rfl, hwritten⟩
    · exact h.of_write hc ht (hsame.trans Option.map_id_apply.symm) (Signals.AgreeOn.refl c.names)
    · exact h.of_write hc ht hwritten (leaves write rfl)

end Entity

namespace World

variable {w : World} {id : EntityId} {e : Entity} {c : Controller} {actions : List Action}

theorem modify_comm (w : World) {i j : EntityId} {f g : Entity → Entity}
    (h : i = j → ∀ e, f (g e) = g (f e)) : (w.modify i f).modify j g = (w.modify j g).modify i f := by
  by_cases hij : i = j
  · subst hij
    have hswap : (fun e => g (f e)) = fun e => f (g e) := funext fun e => (h rfl e).symm
    rw [modify_modify, modify_modify, hswap]
  · simp only [modify, List.modify_modify_ne _ _ _ hij]

theorem insert_modify {w : World} {id : EntityId} (h : id < w.entities.length) (e : Entity)
    (f : Entity → Entity) : ((w.modify id f).insert e).2 = ((w.insert e).2).modify id f := by
  have hentities : w.entities.modify id (·.map f) ++ [some e] =
      (w.entities ++ [some e]).modify id (·.map f) := by
    apply List.ext_getElem?
    intro i
    by_cases hi : i < w.entities.length
    · rw [List.getElem?_append_left (by rwa [List.length_modify]), List.getElem?_modify,
        List.getElem?_modify, List.getElem?_append_left hi]
    · have hne : id ≠ i := fun hid => hi (hid ▸ h)
      rw [List.getElem?_append_right (by rw [List.length_modify]; omega), List.getElem?_modify,
        List.getElem?_append_right (by omega), List.length_modify]
      simp [hne]
  simp only [insert, modify, hentities]

theorem add_release (he : w.entity? id = some e) (tileset : String) (tile : TileId)
    (place : Placement) :
    ((w.release id).add tileset tile place).2 = (w.add tileset tile place).2.release id := by
  have hstore : (w.release id).store = w.store := rfl
  simp only [add, hstore]
  cases Entity.spawn w.store tileset tile place with
  | error _ => rfl
  | ok e' => exact insert_modify (entity?_lt he) e' Entity.released

/-- A tick in which the controller has nothing to switch to does what it does without it. -/
theorem tick_release_of_idle (he : w.entity? id = some e) (h : e.switch? w.store = none)
    (ms : UInt32) : (w.release id).tick ms = ((w.tick ms).1.release id, (w.tick ms).2) := by
  rw [← tick_release, release]
  congr 1
  apply modify_congr
  intro e' he'
  obtain rfl : e = e' := Option.some.inj (he.symm.trans he')
  rw [Entity.select_of_no_switch h]

theorem act_release (he : w.entity? id = some e) (h : e.switch? w.store = none) {a : Action}
    (spares : a.Spares id) : (w.release id).act a = (w.act a).release id := by
  -- Publishing and spawning look at no controller, and what is done to entities leaves controllers.
  cases a with
  | loadFiles | loadFile | loadText | insert => rfl
  | spawn tileset tile place => exact add_release he ..
  | spawnPacked tileset cell position => exact add_release he ..
  | attach i controller signals =>
    exact modify_comm w fun hi => absurd (hi ▸ rfl) (spares controller signals)
  | signal i write => exact modify_comm w fun _ _ => rfl
  | move i position => exact modify_comm w fun _ _ => rfl
  | turn i flip => exact modify_comm w fun _ _ => rfl
  | rescale scale => rfl
  | tick ms => exact congrArg Prod.fst (tick_release_of_idle he h ms)

theorem act_store_of_run {a : Action} (h : (w.run (a :: actions)).store = w.store) :
    (w.act a).store = w.store := by
  have hback : (w.act a).store.Published w.store := h ▸ (w.act a).run_published actions
  exact hback.antisymm (w.act_published a)

/-- A settled controller stays settled through a run, in which it makes no difference. -/
theorem run_settled (he : w.entity? id = some e) (h : e.Settled w.store c)
    (hheld : .flag heldFlag ∉ c.names) (spares : ∀ a ∈ actions, a.Spares id)
    (leaves : ∀ write, .signal id write ∈ actions → ∀ signals,
      Signals.AgreeOn c.names signals (write signals))
    (hstore : (w.run actions).store = w.store) :
    (w.run actions).controller? id = some c ∧
    (w.release id).run actions = (w.run actions).release id ∧
    ∀ t ∈ w.ticks actions, ∃ e', t.1.entity? id = some e' ∧ e'.Settled t.1.store c := by
  induction actions generalizing w e with
  | nil =>
    refine ⟨?_, rfl, ?_⟩
    · rw [run_nil, controller?, he, Option.bind_some, h.controller]
    · intro t ht
      cases ht
  | cons a actions ih =>
    -- The store at the end is the one at the start, so the first action has left it alone too.
    have hspares := spares a List.mem_cons_self
    have hsame := act_store_of_run hstore
    have hnext : (e.act w id a).Settled (w.act a).store c := by
      rw [hsame]
      exact h.act hheld hspares fun write hw => leaves write (hw ▸ List.mem_cons_self)
    obtain ⟨hcontroller, hrun, hticks⟩ := ih (act_entity? he a) hnext
      (fun b hb => spares b (List.mem_cons_of_mem a hb))
      (fun write hw => leaves write (List.mem_cons_of_mem a hw)) (hstore.trans hsame.symm)
    refine ⟨hcontroller, ?_, ?_⟩
    · have hfirst := act_release he h.idle hspares
      change ((w.release id).act a).run actions = _
      rw [hfirst, hrun]
      rfl
    · intro t ht
      rcases List.mem_append.mp ht with hfirst | hlater
      · obtain ⟨ms, -, rfl⟩ := Option.map_eq_some_iff.mp (Option.mem_toList.mp hfirst)
        exact ⟨e, he, h⟩
      · exact hticks t hlater

/-- No restart without a reason. If no rule asks for the held flag, and after a tick the store stays as
it is and no signal is written that a rule names, then the controller does not switch in any later
tick, and the world goes on as if nothing controlled the entity. -/
theorem tick_settles (he : w.entity? id = some e) (hc : e.controller = some c)
    (hheld : .flag heldFlag ∉ c.names) (ms : UInt32) (later : List Action)
    (spares : ∀ a ∈ later, a.Spares id)
    (leaves : ∀ write, .signal id write ∈ later → ∀ signals,
      Signals.AgreeOn c.names signals (write signals))
    (hstore : ((w.act (.tick ms)).run later).store = w.store) :
    let first := w.act (.tick ms)
    (first.run later).controller? id = first.controller? id ∧
    (first.release id).run later = (first.run later).release id ∧
    ∀ t ∈ first.ticks later,
      (∃ e', t.1.entity? id = some e' ∧ e'.select t.1.store = e') ∧
      (t.1.release id).tick t.2 = ((t.1.tick t.2).1.release id, (t.1.tick t.2).2) := by
  intro first
  obtain ⟨current, hselect⟩ := Entity.select_settled w.store hc hheld
  have hsettled := hselect.pass_of_select hheld (w.tickMs ms)
  have hthere : first.entity? id = some (e.pass w.store (w.tickMs ms)).1 := act_entity? he (.tick ms)
  obtain ⟨hcontroller, hrun, hticks⟩ := run_settled hthere hsettled hheld spares leaves hstore
  refine ⟨?_, hrun, ?_⟩
  · rw [hcontroller, controller?, hthere, Option.bind_some, hsettled.controller]
  · intro t ht
    obtain ⟨e', he', h⟩ := hticks t ht
    exact ⟨⟨e', he', h.select⟩, tick_release_of_idle he' h.idle t.2⟩

/-- A door that is told to open starts to in the first tick. It opens and stays open, with the held flag
up, and does not start again. -/
theorem tick_settles_door :
    let track : Track := ⟨⟨10000, true⟩, [⟨1, 100⟩, ⟨2, 0⟩], by simp⟩
    let door : Tile := ⟨"door.json", 0, ⟨16, 16⟩, [], [], some (.inline 0)⟩
    let cells : List Tile := [1, 2, 3].map (Tileset.plainTile "door.json" ⟨16, 16⟩)
    let store : Store := ⟨[⟨"door.json", "door", ⟨16, 16⟩, door :: cells, [track], [0]⟩], by simp⟩
    let c : Controller := .start "door.json" 3 [⟨.hasFlag "open", 0⟩]
    let e : Entity :=
      { tile := some (.fresh ⟨"door.json", 3⟩), position := some (.fresh .zero), shapes := some []
        controller := some c, signals := some ⟨["open"], [], []⟩ }
    let w : World := ⟨default, store, {}, [some e]⟩
    let first := w.act (.tick 60)
    let later : List Action :=
      [.tick 60, .signal 0 (·.setInteger "knocks" 2), .move 0 ⟨4, 4⟩, .tick 60]
    .flag heldFlag ∉ c.names ∧
      c.current = 3 ∧ (first.controller? 0).map (·.current) = some 0 ∧
      ((first.run later).entity? 0).bind (·.signals.map (·.hasFlag heldFlag)) = some true ∧
      (first.run later).controller? 0 = first.controller? 0 ∧
      (first.release 0).run later = (first.run later).release 0 ∧
      ∀ t ∈ first.ticks later,
        (∃ e', t.1.entity? 0 = some e' ∧ e'.select t.1.store = e') ∧
        (t.1.release 0).tick t.2 = ((t.1.tick t.2).1.release 0, (t.1.tick t.2).2) := by
  intro track door cells store c e w first later
  have hheld : .flag heldFlag ∉ c.names := by decide +kernel
  have spares : ∀ a ∈ later, a.Spares 0 := by simp [later, Action.Spares]
  have leaves : ∀ write, .signal 0 write ∈ later → ∀ signals,
      Signals.AgreeOn c.names signals (write signals) := by
    intro write hw signals
    obtain rfl : write = (·.setInteger "knocks" 2) := by simpa [later] using hw
    have hnames : c.names = [.flag "open"] := rfl
    rw [hnames]
    exact List.forall_mem_singleton.mpr rfl
  refine ⟨hheld, rfl, by decide +kernel, by decide +kernel, ?_⟩
  exact tick_settles (e := e) rfl rfl hheld 60 later spares leaves rfl

end World

end TileWorld
