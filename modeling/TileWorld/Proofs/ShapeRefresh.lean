import TileWorld.Proofs.WorldConsistency

/-! The shapes that a pass leaves are those that a recomputation from scratch gives, although it
makes only the shapes of moved entities anew. Between passes an entity that is not moved keeps right
shapes. -/
namespace TileWorld

namespace Entity

/-- An entity with a tile, a place and shapes, as every spawn makes it. -/
structure Placed (e : Entity) : Prop where
  tile : ∃ tile, e.tile = some tile
  position : ∃ position, e.position = some position
  flip : ∃ flip, e.flip = some flip
  shapes : ∃ shapes, e.shapes = some shapes

/-- Without a mark of change the shapes are those of the present tile and place. -/
def UpToDate (s : Store) (e : Entity) : Prop :=
  e.moved = false → e.shapes = e.currentShapes? s

variable {s : Store} {e e' : Entity}

theorem Placed.currentShapes? (h : e.Placed) (s : Store) :
    ∃ tile position flip, e.tile = some tile ∧ e.position = some position ∧ e.flip = some flip ∧
      e.currentShapes? s = some (s.shapesAt tile.value ⟨position.value, flip.value⟩) := by
  obtain ⟨tile, ht⟩ := h.tile
  obtain ⟨position, hp⟩ := h.position
  obtain ⟨flip, hf⟩ := h.flip
  exact ⟨tile, position, flip, ht, hp, hf, by simp [Entity.currentShapes?, place?, ht, hp, hf]⟩

/-- The shapes are a matter of the values of tile, position and flip. -/
theorem currentShapes?_congr (ht : e.tile.map (·.value) = e'.tile.map (·.value))
    (hp : e.position.map (·.value) = e'.position.map (·.value))
    (hf : e.flip.map (·.value) = e'.flip.map (·.value)) (s : Store) :
    e.currentShapes? s = e'.currentShapes? s := by
  have hplace (x : Entity) : x.place? = (x.position.map (·.value)).map
      fun position => ⟨position, (x.flip.map (·.value)).getD .none⟩ := by
    simp [place?, Option.map_map, Function.comp_def]
  have hshapes (x : Entity) : x.currentShapes? s = (x.tile.map (·.value)).bind
      fun tile => x.place?.map (s.shapesAt tile) := by
    simp only [Entity.currentShapes?]
    cases x.tile <;> cases x.place? <;> rfl
  rw [hshapes, hshapes, hplace, hplace, ht, hp, hf]

theorem Alike.currentShapes? (h : e.Alike e') (s : Store) :
    e.currentShapes? s = e'.currentShapes? s :=
  currentShapes?_congr h.tile h.position h.flip s

theorem Retiled.placed (h : e.Retiled e') (he : e.Placed) : e'.Placed := by
  obtain ⟨tile, ht⟩ := he.tile
  refine ⟨?_, h.position ▸ he.position, h.flip ▸ he.flip, h.shapes ▸ he.shapes⟩
  rcases h.tile with hsame | ⟨shown, hupdate⟩
  · exact ⟨tile, hsame.trans ht⟩
  · exact ⟨tile.update shown, by rw [hupdate, ht, Option.map_some]⟩

/-- An update of the tile leaves a mark unless the tile was shown already. -/
theorem Retiled.upToDate (h : e.Retiled e') (he : e.UpToDate s) : e'.UpToDate s := by
  intro hm
  simp only [moved, h.position, h.flip, Bool.or_eq_false_iff] at hm
  obtain ⟨⟨hmt, hmp⟩, hmf⟩ := hm
  -- An update without a mark wrote nothing: it met the value that it was to write.
  have hvalue : e.tile.any (·.written) = false ∧
      e'.tile.map (·.value) = e.tile.map (·.value) := by
    rcases h.tile with hsame | ⟨shown, hupdate⟩
    · exact ⟨hsame ▸ hmt, congrArg _ hsame⟩
    · cases ht : e.tile with
      | none => simp [hupdate, ht]
      | some tile =>
        simp only [hupdate, ht, Option.map_some, Option.any_some, Marked.update_written,
          Bool.or_eq_false_iff, bne_eq_false_iff_eq] at hmt
        simp [hupdate, ht, hmt.1, hmt.2]
  have hmoved : e.moved = false := by simp only [moved, hvalue.1, hmp, hmf, Bool.or_self]
  rw [h.shapes, he hmoved]
  exact (currentShapes?_congr hvalue.2 (by rw [h.position]) (by rw [h.flip]) s).symm

theorem refresh_shapes (hp : e.Placed) (hu : e.UpToDate s) :
    (e.refresh s).shapes = e.currentShapes? s := by
  obtain ⟨shapes, hs⟩ := hp.shapes
  obtain ⟨_, _, _, _, _, _, hc⟩ := hp.currentShapes? s
  cases hm : e.moved with
  | true => simp [refresh, hm, hs, hc]
  | false =>
    -- Nothing is made anew, but without a mark the shapes were right before.
    rw [← hu hm]
    simp [refresh, hm]

theorem pass_placed (h : e.Placed) (s : Store) (deltaMs : UInt32) :
    (e.pass s deltaMs).1.Placed := by
  have hp := ((e.select s).play_retiled s deltaMs |>.placed) ((e.select_retiled s).placed h)
  have ha := e.pass_alike s deltaMs
  have hsome {α : Type} {m m' : Option (Marked α)} (hv : m.map (·.value) = m'.map (·.value))
      (hm : ∃ x, m' = some x) : ∃ x, m = some x := by
    obtain ⟨x, rfl⟩ := hm
    obtain ⟨y, hy, _⟩ := Option.map_eq_some_iff.mp hv
    exact ⟨y, hy⟩
  obtain ⟨shapes, hs⟩ := hp.shapes
  obtain ⟨_, _, _, _, _, _, hc⟩ := hp.currentShapes? s
  refine ⟨hsome ha.tile hp.tile, hsome ha.position hp.position, hsome ha.flip hp.flip, ?_⟩
  simp only [Entity.pass, settle, refresh, hs, hc]
  split
  · exact ⟨_, rfl⟩
  · exact ⟨shapes, hs⟩

/-- A pass leaves the shapes that a recomputation gives. -/
theorem pass_shapes (hp : e.Placed) (hu : e.UpToDate s) (deltaMs : UInt32) :
    (e.pass s deltaMs).1.shapes = (e.pass s deltaMs).1.currentShapes? s := by
  have hsel := e.select_retiled s
  have hplay := (e.select s).play_retiled s deltaMs
  calc (e.pass s deltaMs).1.shapes
      = (((e.select s).play s deltaMs).1.refresh s).shapes := rfl
    _ = ((e.select s).play s deltaMs).1.currentShapes? s :=
      refresh_shapes (hplay.placed (hsel.placed hp)) (hplay.upToDate (hsel.upToDate hu))
    _ = (e.pass s deltaMs).1.currentShapes? s := ((e.pass_alike s deltaMs).currentShapes? s).symm

theorem spawn_placed {tileset : String} {tile : TileId} {place : Placement}
    (h : spawn s tileset tile place = .ok e) : e.Placed ∧ e.moved = true := by
  obtain ⟨_, _, _, _, _, rfl⟩ := (spawn_eq_ok_iff ..).mp h
  exact ⟨⟨⟨_, rfl⟩, ⟨_, rfl⟩, ⟨_, rfl⟩, ⟨_, rfl⟩⟩, rfl⟩

theorem upToDate_of_moved (h : e.moved = true) : e.UpToDate s := by
  intro hm
  simp [h] at hm

/-- Growth of the store changes no shapes, since the tile was found before. -/
theorem UpToDate.grows {s' : Store} (h : e.UpToDate s) (hc : e.Consistent s) (hg : s.Grows s') :
    e.UpToDate s' := by
  intro hm
  obtain ⟨tile, source, ht, hl⟩ := hc.tile
  rw [h hm]
  simp only [Entity.currentShapes?, ht]
  cases e.place? with
  | none => rfl
  | some place => simp [Store.shapesAt, hl, hg.lookup hl]

theorem Edit.placed {w : World} (hedit : Edit w e e') (h : e.Placed) : e'.Placed := by
  cases hedit with
  | keep | attach | signal => exact ⟨h.tile, h.position, h.flip, h.shapes⟩
  | move position => exact ⟨h.tile, ⟨_, rfl⟩, h.flip, h.shapes⟩
  | turn flip => exact ⟨h.tile, h.position, ⟨_, rfl⟩, h.shapes⟩
  | pass ms => exact pass_placed h w.store (w.tickMs ms)

/-- Whatever changes the place marks it, and a pass brings the shapes up to date. -/
theorem Edit.upToDate {w : World} (hedit : Edit w e e') (hp : e.Placed)
    (h : e.UpToDate w.store) : e'.UpToDate w.store := by
  cases hedit with
  | keep | attach | signal => exact h
  | move position => exact upToDate_of_moved (by simp [moved])
  | turn flip => exact upToDate_of_moved (by simp [moved])
  | pass ms =>
    intro _
    exact pass_shapes hp h (w.tickMs ms)

end Entity

namespace World

theorem run_upToDate (settings : Settings) (actions : List Action) :
    ∀ i e, ((ofSettings settings).run actions).entity? i = some e →
      e.Consistent ((ofSettings settings).run actions).store ∧ e.Placed ∧
        e.UpToDate ((ofSettings settings).run actions).store := by
  apply run_invariant (P := fun s e => e.Consistent s ∧ e.Placed ∧ e.UpToDate s)
  · rintro s s' e hg ⟨hc, hp, hu⟩
    exact ⟨hc.grows hg, hp, hu.grows hc hg⟩
  · intro s e tileset tile place hs h
    obtain ⟨hp, hm⟩ := Entity.spawn_placed h
    exact ⟨Entity.spawn_consistent hs h, hp, Entity.upToDate_of_moved hm⟩
  · rintro w e e' hs hedit ⟨hc, hp, hu⟩
    exact ⟨hedit.consistent hs hc, hedit.placed hp, hedit.upToDate hp hu⟩
  · exact Store.closed_empty
  · intro i e he
    simp [entity?, ofSettings] at he

/-- After every tick of every run an entity has exactly the shapes that its present tile has at its
present place, and none if the tile takes no part in collisions. -/
theorem tick_shapes_eq_recomputed (settings : Settings) (actions : List Action) (ms : UInt32) :
    let w := ((ofSettings settings).run actions).act (.tick ms)
    ∀ i e, w.entity? i = some e →
      ∃ tile position flip source,
        e.tile = some tile ∧ e.position = some position ∧ e.flip = some flip ∧
        w.store.lookup tile.value.tileset tile.value.tile = .ok source ∧
        e.shapes = some (if source.collides then
          source.worldShapes ⟨position.value, flip.value⟩ else []) := by
  intro w i e' he'
  obtain ⟨e, he, hpass⟩ := Option.map_eq_some_iff.mp ((entity?_tick _ ms i).symm.trans he')
  obtain ⟨hc, hp, hu⟩ := run_upToDate settings actions i e he
  have hshapes := Entity.pass_shapes hp hu (((ofSettings settings).run actions).tickMs ms)
  rw [hpass] at hshapes
  -- The shapes are right by the tick's own pass; that their tile is found is consistency.
  have hp' : e'.Placed := hpass ▸ Entity.pass_placed hp _ _
  have hc' : e'.Consistent w.store := hpass ▸ hc.pass (run_closed settings actions) _
  obtain ⟨tile, position, flip, ht, hpos, hf, hcur⟩ := hp'.currentShapes? w.store
  obtain ⟨tile', source, ht', hl⟩ := hc'.tile
  obtain rfl : tile = tile' := Option.some.inj (ht.symm.trans ht')
  refine ⟨tile, position, flip, source, ht, hpos, hf, hl, ?_⟩
  rw [show e'.shapes = e'.currentShapes? w.store from hshapes, hcur]
  simp only [Store.shapesAt, hl]

/-- A crate that is moved and turned between two ticks. Its plate has come along, mirrored. -/
theorem tick_shapes_eq_recomputed_crate :
    let plate : Authored.Object := ⟨"", 2, 4, 8, 2, 0, none, []⟩
    let source : Authored.Tileset :=
      ⟨"crate", 16, 16, none, none, [⟨3, none, none, [], [plate], []⟩]⟩
    let flip : Flip := ⟨true, false, false⟩
    let actions : List Action := [.insert "crate.json" source {}, .spawn "crate.json" 3 default,
      .tick 40, .move 0 ⟨32, 0⟩, .turn 0 flip]
    let w := ((ofSettings {}).run actions).act (.tick 40)
    ∃ e crate, w.entity? 0 = some e ∧ w.store.lookup "crate.json" 3 = .ok crate ∧
      e.shapes = some (crate.worldShapes ⟨⟨32, 0⟩, flip⟩) ∧
      e.shapes.map (·.map (·.points)) = some [[⟨46, 4⟩, ⟨38, 4⟩, ⟨38, 6⟩, ⟨46, 6⟩]] := by
  intro plate source flip actions w
  let shape : Shape := ⟨none, ⟨2, 4⟩, 0, .rectangle 8 2, .solid, false⟩
  let crate : Tile := ⟨"crate.json", 3, ⟨16, 16⟩, [shape], [], none⟩
  have hcrate : w.store.lookup "crate.json" 3 = .ok crate := by decide +kernel
  have hstands : (w.entity? 0).bind (fun e => e.place?.map (e.tile.map (·.value), ·)) =
      some (some ⟨"crate.json", 3⟩, ⟨⟨32, 0⟩, flip⟩) := by decide +kernel
  have hpoints : (w.entity? 0).bind (·.shapes.map (·.map (·.points))) =
      some [[⟨46, 4⟩, ⟨38, 4⟩, ⟨38, 6⟩, ⟨46, 6⟩]] := by decide +kernel
  obtain ⟨e, he, hplace⟩ := Option.bind_eq_some_iff.mp hstands
  rw [he, Option.bind_some] at hpoints
  obtain ⟨tile, position, turned, found, ht, hp, hf, hl, hshapes⟩ :=
    tick_shapes_eq_recomputed {} actions 40 0 e he
  simp only [Entity.place?, ht, hp, hf, Option.map_some, Option.getD_some, Option.some.injEq,
    Prod.mk.injEq, Placement.mk.injEq] at hplace
  obtain ⟨htile, hposition, hflip⟩ := hplace
  rw [htile] at hl
  obtain rfl : crate = found := Except.ok.inj (hcrate.symm.trans hl)
  rw [hposition, hflip, if_pos (by decide)] at hshapes
  exact ⟨e, crate, he, hcrate, hshapes, hpoints⟩

end World

end TileWorld
