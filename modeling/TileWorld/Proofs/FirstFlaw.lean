import TileWorld.Proofs.AuthoredFlaws

/-! Loading stops at the first flaw. Each reader is matched with the report of its part, and readers
in sequence report one part behind the other; so what a load fails with is the first entry of the
whole report, and it succeeds when that is empty. -/
namespace TileWorld

/-- A reader that fails with the first of some flaws, or succeeds since there are none. -/
inductive Reports {α : Type} : Except Flaw α → List Flaw → Prop where
  | sound (a : α) : Reports (.ok a) []
  | flawed (flaw : Flaw) (later : List Flaw) : Reports (.error flaw) (flaw :: later)

namespace Reports
variable {α β : Type}

theorem bind {x : Except Flaw α} {f : α → Except Flaw β} {flaws later : List Flaw}
    (hx : Reports x flaws) (hf : ∀ a, x = .ok a → Reports (f a) later) :
    Reports (x >>= f) (flaws ++ later) := by
  cases hx with
  | sound a => exact hf a rfl
  | flawed flaw rest => exact .flawed flaw (rest ++ later)

theorem mapM {f : α → Except Flaw β} {flaws : α → List Flaw} {xs : List α}
    (h : ∀ x ∈ xs, Reports (f x) (flaws x)) : Reports (xs.mapM f) (xs.flatMap flaws) := by
  induction xs with
  | nil => exact .sound []
  | cons x xs ih =>
    rw [List.mapM_cons, List.flatMap_cons]
    refine (h x List.mem_cons_self).bind fun y _ => ?_
    have hxs := ih fun z hz => h z (List.mem_cons_of_mem x hz)
    rw [← List.append_nil (xs.flatMap flaws)]
    exact hxs.bind fun ys _ => .sound (y :: ys)

theorem exists_ok_iff {x : Except Flaw α} {flaws : List Flaw} (h : Reports x flaws) :
    (∃ a, x = .ok a) ↔ flaws = [] := by
  cases h with
  | sound a => simp
  | flawed flaw later => simp

theorem eq_error_iff {x : Except Flaw α} {flaws : List Flaw} (h : Reports x flaws) (flaw : Flaw) :
    x = .error flaw ↔ flaws.head? = some flaw := by
  cases h with
  | sound a => simp
  | flawed flaw later => simp

end Reports

namespace Tileset
open Authored

theorem readProperties_reports (tile : TileId) (read : Properties) (front ps : List Property)
    (hread : ∀ name, (read.find? name).isSome = true ↔ name ∈ front.map (·.name)) :
    Reports (readProperties tile read ps) (findings (Property.flaw? tile) front ps) := by
  induction ps generalizing read front with
  | nil => exact .sound read
  | cons p ps ih =>
    simp only [readProperties, findings, Property.flaw?]
    cases htyped : p.typed? with
    | none => exact .flawed _ _
    | some value =>
      -- A name is taken in the map exactly if a property in front has it.
      by_cases hname : p.name ∈ front.map (·.name)
      · simp only [(hread _).mpr hname, hname, if_true, reduceCtorEq, if_false]
        exact .flawed _ _
      · simp only [(hread p.name).not.mpr hname, hname, if_false, reduceCtorEq]
        refine ih _ _ fun name => ?_
        rw [Properties.find?_concat, Option.isSome_or, Bool.or_eq_true, hread, List.map_append,
          List.mem_append]
        split_ifs <;> simp_all

theorem readOutline_reports (tile : TileId) (o : Object) :
    Reports (readOutline tile o) ((o.polygon.toList.filter (·.length < 3)).map
      fun points => .degeneratePolygon tile points.length) := by
  simp only [readOutline]
  cases o.polygon with
  | none => exact .sound _
  | some points =>
    simp only [Option.toList_some, List.filter_cons, List.filter_nil, decide_eq_true_eq]
    split
    next => exact .flawed _ _
    next => exact .sound _

theorem isFinite_of_readOutline {tile : TileId} {o : Object} {outline : Outline}
    (h : readOutline tile o = .ok outline) :
    (outline.isFinite && (⟨o.x, o.y⟩ : Point).isFinite && o.rotation.isFinite) = o.isFinite := by
  rw [outline_of_readOutline h, Object.isFinite]
  -- Both check the same numbers, a shape those of its outline first.
  cases o.polygon with
  | none =>
    simp only [Option.elim, Outline.isFinite, Point.isFinite]
    ac_rfl
  | some points =>
    simp only [Option.elim, Outline.isFinite, Point.isFinite]
    ac_rfl

theorem readShape_reports (tile : TileId) (tileDrop : Bool) (o : Object) :
    Reports (readShape tile tileDrop o) (o.flaws tile) := by
  simp only [readShape, Object.flaws, List.append_assoc]
  refine (readProperties_reports tile [] [] o.properties (by simp [Properties.find?])).bind ?_
  intro properties _
  refine (readOutline_reports tile o).bind ?_
  intro outline houtline
  simp only [Shape.isFinite, isFinite_of_readOutline houtline]
  split
  next => exact .sound _
  next => exact .flawed _ _

theorem mem_animationPaths_iff {t : Authored.Tile} {properties : Properties}
    (h : readProperties t.id [] t.properties = .ok properties) (path : String) :
    path ∈ t.animationPaths ↔
      (properties.find? referenceProperty).bind PropertyValue.file? = some path := by
  rw [file?_of_readProperties h]
  simp only [Authored.Tile.animationPaths, List.mem_filterMap, Property.typed?_eq_file_iff,
    Option.ite_none_right_eq_some, Json.string?_eq_some_iff, referenceProperty, and_assoc]

theorem readReference_reports {t : Authored.Tile} {properties : Properties}
    (h : readProperties t.id [] t.properties = .ok properties) :
    Reports (readReference t.id properties)
      (if "" ∈ t.animationPaths then [.emptyReference t.id] else []) := by
  simp only [mem_animationPaths_iff h, readReference]
  split
  next hempty =>
    rw [if_pos hempty]
    exact .flawed _ _
  next hpath =>
    rw [if_neg (by simpa using hpath)]
    exact .sound _

theorem reference_isSome_iff {t : Authored.Tile} {properties : Properties}
    {reference : Option String} (h : readProperties t.id [] t.properties = .ok properties)
    (hr : readReference t.id properties = .ok reference) :
    reference.isSome = true ↔ t.animationPaths ≠ [] := by
  obtain ⟨hreference, _⟩ := (readReference_eq_ok_iff ..).mp hr
  rw [← Option.ne_none_iff_isSome, ne_eq, ne_eq, not_iff_not, List.eq_nil_iff_forall_not_mem,
    Option.eq_none_iff_forall_ne_some]
  simp only [mem_animationPaths_iff h, hreference, ne_eq]

theorem readTrack_reports (owns : TileId → Prop) [DecidablePred owns] (policy : HoldPolicy)
    (t : Authored.Tile) :
    Reports (readTrack (fun id => owns id) policy t)
      ((t.animation.filter fun f => ¬owns f.tile).map
        (fun f => .danglingFrame t.id f.tile)) := by
  simp only [readTrack, decide_not, ← List.head?_filter]
  -- The frame found is the first of all that the report has.
  cases t.animation.filter fun f => !decide (owns f.tile) with
  | nil => exact .sound _
  | cons f later => exact .flawed _ _

theorem track_isSome_iff {owned : TileId → Bool} {policy : HoldPolicy} {t : Authored.Tile}
    {track : Option Track} (h : readTrack owned policy t = .ok track) :
    track.isSome = true ↔ t.animation ≠ [] := by
  obtain ⟨_, rfl⟩ := (readTrack_eq_ok_iff ..).mp h
  exact Track.ofFrames?_isSome_iff policy t.animation

theorem readTile_reports (owns : TileId → Prop) [DecidablePred owns] (policy : HoldPolicy)
    (cell : Size) (t : Authored.Tile) :
    Reports (readTile (fun id => owns id) policy cell t) (t.flaws owns) := by
  simp only [readTile, Authored.Tile.flaws, List.append_assoc]
  refine (readProperties_reports t.id [] [] t.properties (by simp [Properties.find?])).bind ?_
  intro properties hproperties
  refine (Reports.mapM fun o _ => readShape_reports t.id _ o).bind ?_
  intro shapes _
  refine (readReference_reports hproperties).bind ?_
  intro reference hreference
  refine (readTrack_reports owns policy t).bind ?_
  intro track htrack
  -- Track and reference are there exactly if frames and paths were authored.
  simp only [Bool.and_eq_true, track_isSome_iff htrack, reference_isSome_iff hproperties hreference]
  split
  next => exact .flawed _ _
  next => exact .sound _

theorem firstRepeated?_eq_head? (seen front ids : List TileId)
    (hseen : ∀ id, id ∈ seen ↔ id ∈ front) :
    (firstRepeated? seen ids).map .duplicateTile =
      (findings Authored.Tileset.repeatedId? front ids).head? := by
  induction ids generalizing seen front with
  | nil => rfl
  | cons id ids ih =>
    simp only [firstRepeated?, findings, Authored.Tileset.repeatedId?, hseen]
    split
    next => rfl
    next =>
      refine ih _ _ fun other => ?_
      simp [hseen, or_comm]

theorem owned_eq (source : Authored.Tileset) :
    owned source = fun id => decide (source.Owns id) := by
  funext id
  rw [Bool.eq_iff_iff, decide_eq_true_iff]
  simp [owned, Authored.Tileset.Owns]

theorem readTiles_reports (policy : HoldPolicy) (source : Authored.Tileset) :
    Reports (readTiles policy source) source.flaws := by
  have hids := firstRepeated?_eq_head? [] [] (source.tiles.map (·.id)) (by simp)
  simp only [readTiles, Authored.Tileset.flaws, owned_eq]
  cases hrepeated : findings Authored.Tileset.repeatedId? [] (source.tiles.map (·.id)) with
  | nil =>
    rw [hrepeated, List.head?_nil, Option.map_eq_none_iff] at hids
    rw [hids, List.nil_append]
    exact Reports.mapM fun t _ => readTile_reports source.Owns policy _ t
  | cons flaw later =>
    rw [hrepeated, List.head?_cons, Option.map_eq_some_iff] at hids
    obtain ⟨id, hid, rfl⟩ := hids
    rw [hid]
    exact .flawed _ _

theorem exists_load_iff (id : String) (source : Authored.Tileset) (policy : HoldPolicy) :
    (∃ t, load id source policy = .ok t) ↔ source.WellFormed := by
  rw [← Authored.Tileset.flaws_eq_nil_iff, ← (readTiles_reports policy source).exists_ok_iff]
  simp only [load_eq_ok_iff]
  constructor
  · rintro ⟨_, drafts, hdrafts, _⟩
    exact ⟨drafts, hdrafts⟩
  · rintro ⟨drafts, hdrafts⟩
    exact ⟨_, drafts, hdrafts, rfl⟩

/-- A description loads exactly when it is well formed. Otherwise the error names the tileset and has
the first of all its flaws: an id that is repeated, or else the first flaw of the least tile that
has one. -/
theorem load_reports_first_flaw (id : String) (source : Authored.Tileset) (policy : HoldPolicy) :
    ((∃ t, load id source policy = .ok t) ↔ source.WellFormed) ∧
      ∀ error, load id source policy = .error error ↔
        ∃ flaw, source.flaws.head? = some flaw ∧ error = .malformedTileset id flaw := by
  refine ⟨exists_load_iff id source policy, fun error => ?_⟩
  simp only [load_eq_error_iff, (readTiles_reports policy source).eq_error_iff]

end Tileset

end TileWorld
