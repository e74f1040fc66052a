import TileWorld.Proofs.LoadedTileset

/-! What written properties mean. A list of them is read into the map of their typed values by name,
and nothing else gets into the map. -/
namespace TileWorld

theorem Json.string?_eq_some_iff (json : Json) (s : String) :
    json.string? = some s ↔ json = .string s := by
  cases json <;> simp [string?]

namespace PropertyValue

/-- The typed value that a written one has under its declared type. No integer literal lies below
the signed 64-bit words, so only their upper bound can be missed. -/
inductive Written : String → Json → PropertyValue → Prop where
  | bool (b : Bool) : Written "bool" (.bool b) (.bool b)
  | boolText (b : Bool) : Written "bool" (.string (if b then "true" else "false")) (.bool b)
  | int {n : Int} (fits : n ≤ 0x7FFFFFFFFFFFFFFF) : Written "int" (.int n) (.int n)
  | float {json : Json} {x : Float} (number : json.double? = some x) :
    Written "float" json (.float x)
  | file (path : String) : Written "file" (.string path) (.file path)
  | string (s : String) : Written "string" (.string s) (.string s)
  | color (s : String) : Written "color" (.string s) (.string s)

theorem ofJson?_eq_some_iff (kind : String) (json : Json) (value : PropertyValue) :
    ofJson? kind json = some value ↔ Written kind json value := by
  constructor
  · intro h
    -- Each declared type accepts its own values, so there is one case for each of them.
    simp only [ofJson?] at h
    split_ifs at h with hbool hint hfloat hfile htext
    · subst hbool
      split at h
      · cases h
        exact .bool _
      · split_ifs at h with htrue hfalse
        · cases h
          subst htrue
          exact .boolText true
        · cases h
          subst hfalse
          exact .boolText false
      · cases h
    · subst hint
      split at h
      · split_ifs at h with hfits
        cases h
        exact .int hfits
      · cases h
    · subst hfloat
      obtain ⟨x, hx, rfl⟩ := Option.map_eq_some_iff.mp h
      exact .float hx
    · subst hfile
      obtain ⟨path, hpath, rfl⟩ := Option.map_eq_some_iff.mp h
      rw [(Json.string?_eq_some_iff ..).mp hpath]
      exact .file path
    · obtain ⟨s, hs, rfl⟩ := Option.map_eq_some_iff.mp h
      rw [(Json.string?_eq_some_iff ..).mp hs]
      rcases htext with rfl | rfl
      · exact .string s
      · exact .color s
  · intro h
    cases h with
    | bool b => rfl
    | boolText b => cases b <;> rfl
    | int fits => simpa [ofJson?] using fits
    | float number => simp [ofJson?, number]
    | file path => rfl
    | string s => rfl
    | color s => rfl

theorem bool?_eq_some_iff (value : PropertyValue) (b : Bool) :
    value.bool? = some b ↔ value = .bool b := by
  cases value <;> simp [bool?]

theorem file?_eq_some_iff (value : PropertyValue) (path : String) :
    value.file? = some path ↔ value = .file path := by
  cases value <;> simp [file?]

end PropertyValue

namespace Authored.Property

theorem typed?_eq_some_iff (p : Property) (value : PropertyValue) :
    p.typed? = some value ↔ PropertyValue.Written p.kind p.value value :=
  PropertyValue.ofJson?_eq_some_iff ..

theorem typed?_eq_bool_iff (p : Property) (b : Bool) :
    p.typed? = some (.bool b) ↔
      p.kind = "bool" ∧ (p.value = .bool b ∨ p.value = .string (if b then "true" else "false")) := by
  rw [typed?_eq_some_iff]
  obtain ⟨name, kind, value⟩ := p
  constructor
  · intro h
    cases h with
    | bool => exact ⟨rfl, Or.inl rfl⟩
    | boolText => exact ⟨rfl, Or.inr rfl⟩
  · rintro ⟨rfl, rfl | rfl⟩
    · exact .bool b
    · exact .boolText b

theorem typed?_of_bool {p : Property} (hkind : p.kind = "bool") {value : PropertyValue}
    (h : p.typed? = some value) : ∃ b, value = .bool b := by
  rw [typed?_eq_some_iff] at h
  obtain ⟨name, kind, written⟩ := p
  cases h with
  | bool b => exact ⟨b, rfl⟩
  | boolText b => exact ⟨b, rfl⟩
  | _ => simp at hkind

theorem typed?_eq_file_iff (p : Property) (path : String) :
    p.typed? = some (.file path) ↔ p.kind = "file" ∧ p.value = .string path := by
  rw [typed?_eq_some_iff]
  obtain ⟨name, kind, value⟩ := p
  constructor
  · intro h
    cases h with
    | file => exact ⟨rfl, rfl⟩
  · rintro ⟨rfl, rfl⟩
    exact .file path

end Authored.Property

theorem Properties.find?_concat (properties : Properties) (name : String) (value : PropertyValue)
    (asked : String) :
    Properties.find? (properties ++ [(name, value)]) asked =
      (properties.find? asked).or (if asked = name then some value else none) := by
  simp only [Properties.find?, List.lookup_append, List.lookup_cons, List.lookup_nil]
  split <;> simp_all

namespace Tileset

theorem readProperties_cons_eq_ok_iff (tile : TileId) (read properties : Properties)
    (p : Authored.Property) (ps : List Authored.Property) :
    readProperties tile read (p :: ps) = .ok properties ↔
      ∃ value, p.typed? = some value ∧ read.find? p.name = none ∧
        readProperties tile (read ++ [(p.name, value)]) ps = .ok properties := by
  simp only [readProperties]
  cases p.typed? with
  | none => simp
  | some value => cases read.find? p.name <;> simp

/-- A list that is read has only typed values, and puts them under their names. -/
theorem find?_readProperties {tile : TileId} {read properties : Properties}
    {ps : List Authored.Property} (h : readProperties tile read ps = .ok properties)
    (name : String) (value : PropertyValue) :
    properties.find? name = some value ↔
      read.find? name = some value ∨ ∃ p ∈ ps, p.name = name ∧ p.typed? = some value := by
  induction ps generalizing read with
  | nil =>
    cases h
    simp
  | cons p ps ih =>
    obtain ⟨typed, htyped, hfree, hrest⟩ := (readProperties_cons_eq_ok_iff ..).mp h
    rw [ih hrest, Properties.find?_concat, Option.or_eq_some_iff]
    simp only [List.exists_mem_cons_iff, htyped]
    -- The first property adds its own name, which was free, and no other.
    by_cases hname : name = p.name
    · subst hname
      simp [hfree]
    · simp [hname, Ne.symm hname]

theorem readProperties_typed {tile : TileId} {read properties : Properties}
    {ps : List Authored.Property} (h : readProperties tile read ps = .ok properties) :
    ∀ p ∈ ps, ∃ value, p.typed? = some value := by
  induction ps generalizing read with
  | nil => simp
  | cons p ps ih =>
    obtain ⟨typed, htyped, _, hrest⟩ := (readProperties_cons_eq_ok_iff ..).mp h
    rw [List.forall_mem_cons]
    exact ⟨⟨typed, htyped⟩, ih hrest⟩

section
variable {tile : TileId} {properties : Properties} {ps : List Authored.Property}
  (h : readProperties tile [] ps = .ok properties)
include h

theorem find?_of_readProperties (name : String) (value : PropertyValue) :
    properties.find? name = some value ↔ ∃ p ∈ ps, p.name = name ∧ p.typed? = some value := by
  rw [find?_readProperties h]
  simp [Properties.find?]

theorem bool?_of_readProperties (name : String) (b : Bool) :
    properties.bool? name = some b ↔ ∃ p ∈ ps, p.name = name ∧ p.typed? = some (.bool b) := by
  rw [← find?_of_readProperties h, Properties.bool?, Option.bind_eq_some_iff]
  simp only [PropertyValue.bool?_eq_some_iff, exists_eq_right]

theorem file?_of_readProperties (name path : String) :
    (properties.find? name).bind PropertyValue.file? = some path ↔
      ∃ p ∈ ps, p.name = name ∧ p.typed? = some (.file path) := by
  rw [← find?_of_readProperties h, Option.bind_eq_some_iff]
  simp only [PropertyValue.file?_eq_some_iff, exists_eq_right]

end

end Tileset

end TileWorld
