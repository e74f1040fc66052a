import Mathlib.Data.List.Nodup
import Mathlib.Tactic.MkIffOfInductiveProp
import TileWorld.Proofs.TypedProperties

/-! What a description has to meet, and the report of all that is wrong with one: repeated ids in the
order of the file, then everything about the tiles, by ascending id. The report is empty exactly when
the description is well formed. -/
namespace TileWorld

/-- What a check finds in each of some items, given those in front of it. -/
def findings {α β : Type} (check : List α → α → Option β) (front : List α) : List α → List β
  | [] => []
  | x :: xs => (check front x).toList ++ findings check (front ++ [x]) xs

/-- A check for repeated keys, and for a property of each item alone, finds nothing when the keys are
distinct and the items have the property. -/
theorem findings_eq_nil_iff {α β γ : Type} {check : List α → α → Option β} {key : α → γ}
    {sound : α → Prop} (hcheck : ∀ front x, check front x = none ↔ sound x ∧ key x ∉ front.map key)
    (front xs : List α) :
    findings check front xs = [] ↔
      (∀ x ∈ xs, sound x) ∧ (xs.map key).Nodup ∧ ∀ x ∈ xs, key x ∉ front.map key := by
  induction xs generalizing front with
  | nil => simp [findings]
  | cons x xs ih =>
    simp only [findings, List.append_eq_nil_iff, Option.toList_eq_nil_iff, hcheck, ih,
      List.map_append, List.map_cons, List.map_nil, List.mem_append, List.mem_singleton, not_or,
      List.nodup_cons, List.forall_mem_cons]
    -- Behind the first item its key is taken as well, so the others must differ from it.
    have hfirst : key x ∉ xs.map key ↔ ∀ y ∈ xs, key y ≠ key x := by
      simp only [List.mem_map, not_exists, not_and, ne_eq]
    rw [hfirst]
    constructor
    · rintro ⟨⟨hx, hnew⟩, hxs, hnodup, hrest⟩
      exact ⟨⟨hx, hxs⟩, ⟨fun y hy => (hrest y hy).2, hnodup⟩, hnew, fun y hy => (hrest y hy).1⟩
    · rintro ⟨⟨hx, hxs⟩, ⟨hother, hnodup⟩, hnew, hrest⟩
      exact ⟨⟨hx, hnew⟩, hxs, hnodup, fun y hy => ⟨hrest y hy, hother y hy⟩⟩

namespace Authored

/-- Properties whose values match their declared types, each under a name of its own. -/
@[mk_iff]
structure PropertiesFit (ps : List Property) : Prop where
  typed : ∀ p ∈ ps, ∃ value, PropertyValue.Written p.kind p.value value
  distinct : (ps.map (·.name)).Nodup

/-- What is wrong with a property on a tile, or on a shape of it, behind other properties. -/
def Property.flaw? (tile : TileId) (front : List Property) (p : Property) : Option Flaw :=
  if p.typed? = none then some (.mistypedProperty tile p.name)
  else if p.name ∈ front.map (·.name) then some (.duplicateProperty tile p.name)
  else none

theorem findings_flaw?_eq_nil_iff (tile : TileId) (ps : List Property) :
    findings (Property.flaw? tile) [] ps = [] ↔ PropertiesFit ps := by
  have hcheck (front : List Property) (p : Property) : p.flaw? tile front = none ↔
      (∃ value, PropertyValue.Written p.kind p.value value) ∧ p.name ∉ front.map (·.name) := by
    simp only [← Property.typed?_eq_some_iff, ← Option.ne_none_iff_exists', Property.flaw?]
    split_ifs <;> simp_all
  rw [findings_eq_nil_iff hcheck, propertiesFit_iff]
  simp

namespace Object

/-- Whether all numbers of an object that count are finite. Those of a polygon's points do, and
otherwise width and height. -/
def isFinite (o : Object) : Bool :=
  o.x.isFinite && o.y.isFinite && o.rotation.isFinite &&
    match o.polygon with
    | some points => points.all fun p => p.x.isFinite && p.y.isFinite
    | none => o.width.isFinite && o.height.isFinite

@[mk_iff]
structure WellFormed (o : Object) : Prop where
  properties : PropertiesFit o.properties
  polygon : ∀ points, o.polygon = some points → 3 ≤ points.length
  finite : o.isFinite = true

/-- All that is wrong with an object on a tile: first its properties, then too small a polygon, then
its numbers. -/
def flaws (tile : TileId) (o : Object) : List Flaw :=
  findings (Property.flaw? tile) [] o.properties ++
    (o.polygon.toList.filter (·.length < 3)).map
      (fun points => .degeneratePolygon tile points.length) ++
    if o.isFinite then [] else [.nonFiniteGeometry tile]

theorem flaws_eq_nil_iff (tile : TileId) (o : Object) : o.flaws tile = [] ↔ o.WellFormed := by
  simp only [flaws, List.append_eq_nil_iff, findings_flaw?_eq_nil_iff, List.map_eq_nil_iff,
    List.filter_eq_nil_iff, Option.mem_toList, decide_eq_true_eq, Nat.not_lt,
    ite_eq_left_iff, reduceCtorEq, imp_false, Bool.not_eq_true, Bool.not_eq_false, and_assoc,
    wellFormed_iff]

end Object

namespace Tile

/-- The paths under which a tile refers to animations of other tilesets. -/
def animationPaths (t : Tile) : List String :=
  t.properties.filterMap fun p =>
    if p.name = "anim" ∧ p.kind = "file" then p.value.string? else none

@[mk_iff]
structure WellFormed (owns : TileId → Prop) (t : Tile) : Prop where
  properties : PropertiesFit t.properties
  objects : ∀ o ∈ t.objects, o.WellFormed
  path : "" ∉ t.animationPaths
  frames : ∀ f ∈ t.animation, owns f.tile
  oneSource : t.animation = [] ∨ t.animationPaths = []

/-- All that is wrong with a tile: its properties, its objects, an empty path, the frames that show
no owned tile, and then frames beside a path. -/
def flaws (owns : TileId → Prop) [DecidablePred owns] (t : Tile) : List Flaw :=
  findings (Property.flaw? t.id) [] t.properties ++
    t.objects.flatMap (Object.flaws t.id) ++
    (if "" ∈ t.animationPaths then [.emptyReference t.id] else []) ++
    (t.animation.filter fun f => ¬owns f.tile).map (fun f => .danglingFrame t.id f.tile) ++
    if t.animation ≠ [] ∧ t.animationPaths ≠ [] then [.conflictingAnimation t.id] else []

theorem flaws_eq_nil_iff (owns : TileId → Prop) [DecidablePred owns] (t : Tile) :
    t.flaws owns = [] ↔ t.WellFormed owns := by
  simp only [flaws, List.append_eq_nil_iff, findings_flaw?_eq_nil_iff, List.flatMap_eq_nil_iff,
    Object.flaws_eq_nil_iff, List.map_eq_nil_iff, List.filter_eq_nil_iff, decide_eq_true_eq,
    not_not, ite_eq_right_iff, List.cons_ne_nil, imp_false, not_and_or, ne_eq, and_assoc,
    wellFormed_iff]

end Tile

namespace Tileset

/-- A description owns the ids of its grid and those that it lists. -/
def Owns (source : Tileset) (id : TileId) : Prop :=
  id < source.gridTileCount ∨ ∃ t ∈ source.tiles, t.id = id

instance (source : Tileset) : DecidablePred source.Owns :=
  fun _ => inferInstanceAs (Decidable (_ ∨ _))

@[mk_iff]
structure WellFormed (source : Tileset) : Prop where
  distinct : (source.tiles.map (·.id)).Nodup
  tiles : ∀ t ∈ source.tiles, t.WellFormed source.Owns

/-- An id that was there before. -/
def repeatedId? (front : List TileId) (id : TileId) : Option Flaw :=
  if id ∈ front then some (.duplicateTile id) else none

/-- All that is wrong with a description: the repeated ids in the order of the file, then the flaws
of the tiles by ascending id. -/
def flaws (source : Tileset) : List Flaw :=
  findings repeatedId? [] (source.tiles.map (·.id)) ++
    (source.tiles.mergeSort (·.id ≤ ·.id)).flatMap (Tile.flaws source.Owns)

theorem findings_repeatedId?_eq_nil_iff (ids : List TileId) :
    findings repeatedId? [] ids = [] ↔ ids.Nodup := by
  have hcheck (front : List TileId) (id : TileId) :
      repeatedId? front id = none ↔ True ∧ id ∉ front.map fun id => id := by
    simp [repeatedId?]
  rw [findings_eq_nil_iff hcheck]
  simp

theorem flaws_eq_nil_iff (source : Tileset) : source.flaws = [] ↔ source.WellFormed := by
  simp only [flaws, List.append_eq_nil_iff, findings_repeatedId?_eq_nil_iff,
    List.flatMap_eq_nil_iff, List.mem_mergeSort, Tile.flaws_eq_nil_iff, wellFormed_iff]

end Tileset

end Authored

end TileWorld
