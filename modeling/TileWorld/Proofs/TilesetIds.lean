import Mathlib.Logic.Relation
import TileWorld.Proofs.ReferencePaths
import TileWorld.Proofs.StoreGrowth

/-! Ids of tilesets from the paths of their files. Below a root the id is what follows the root, and
elsewhere the name of the file, however the two paths are written. Only a root without components
takes an absolute path for one below it. -/
namespace TileWorld.Path

variable {root path : String} {c : Component}

/-- A path from the root of the file system on. -/
def IsAbsolute (path : String) : Prop :=
  path.toList.head? = some '/'

instance (path : String) : Decidable (IsAbsolute path) :=
  inferInstanceAs (Decidable (_ = _))

/-- The components of a path but for the root of the file system. -/
def steps (path : String) : List Component :=
  (Text.split '/' path.toList).filterMap ofPart?

/-- A path below a root, with what follows the root: both start in the same place, and the components
of the root come first. -/
structure Below (root path : String) (rest : List Component) : Prop where
  alike : IsAbsolute root ↔ IsAbsolute path
  follows : components path = components root ++ rest
  ne_nil : rest ≠ []

theorem components_eq (path : String) :
    components path = (if IsAbsolute path then [.root] else []) ++ steps path :=
  rfl

theorem components_of_absolute (h : IsAbsolute path) : components path = .root :: steps path := by
  rw [components_eq, if_pos h, List.singleton_append]

theorem components_of_relative (h : ¬ IsAbsolute path) : components path = steps path := by
  rw [components_eq, if_neg h, List.nil_append]

/-- A step is written as a part between slashes, which is neither empty nor the root. -/
theorem exists_part_of_mem_steps (h : c ∈ steps path) :
    c ≠ .root ∧ ∃ x xs, c.text = x :: xs ∧ x ≠ '/' := by
  obtain ⟨part, hpart, hc⟩ := List.mem_filterMap.mp h
  have hslash := Text.not_mem_of_mem_split hpart
  rw [ofPart?] at hc
  split at hc
  next => cases hc
  next hne =>
    split at hc
    next =>
      obtain rfl := Option.some.inj hc
      exact ⟨by simp, '.', ['.'], rfl, by decide⟩
    next =>
      obtain rfl := Option.some.inj hc
      obtain ⟨x, xs, rfl⟩ := List.exists_cons_of_ne_nil fun hnil => hne (Or.inl hnil)
      exact ⟨by simp, x, xs, rfl, fun hx => hslash (hx ▸ List.mem_cons_self)⟩

theorem relativeTo?_eq_some_iff (root path rest : List Component) :
    relativeTo? root path = some rest ↔ path = root ++ rest := by
  induction root generalizing path with
  | nil => simp [relativeTo?]
  | cons r root ih =>
    cases path with
    | nil => simp [relativeTo?]
    | cons c path =>
      by_cases h : r = c
      · simp [relativeTo?, h, ih]
      · simp [relativeTo?, h, Ne.symm h]

/-- A path that begins with the components of a root starts where the root does, unless the root has
no components. -/
theorem alike_of_append {rest : List Component} (h : components path = components root ++ rest) :
    (IsAbsolute root ↔ IsAbsolute path) ∨ components root = [] ∧ IsAbsolute path := by
  by_cases hr : IsAbsolute root
  · refine Or.inl (iff_of_true hr ?_)
    by_contra hp
    rw [components_of_absolute hr, components_of_relative hp, List.cons_append] at h
    exact (exists_part_of_mem_steps (h ▸ List.mem_cons_self)).1 rfl
  · by_cases hp : IsAbsolute path
    · refine Or.inr ⟨?_, hp⟩
      rw [components_of_relative hr, components_of_absolute hp] at h
      rw [components_of_relative hr]
      cases hs : steps root with
      | nil => rfl
      | cons c cs =>
        -- The first step of the root would be the root of the file system.
        rw [hs, List.cons_append, List.cons.injEq] at h
        exact absurd h.1.symm (exists_part_of_mem_steps (hs ▸ List.mem_cons_self)).1
    · exact Or.inl (iff_of_false hr hp)

/-- Below a root nothing but steps follows it. -/
theorem Below.steps_eq {rest : List Component} (h : Below root path rest) :
    steps path = steps root ++ rest := by
  have hf := h.follows
  by_cases hr : IsAbsolute root
  · rw [components_of_absolute hr, components_of_absolute (h.alike.mp hr), List.cons_append] at hf
    exact (List.cons.inj hf).2
  · rwa [components_of_relative hr, components_of_relative (mt h.alike.mpr hr)] at hf

theorem not_below_of_components_eq_nil {rest : List Component} (hr : components root = [])
    (hp : IsAbsolute path) : ¬ Below root path rest := by
  intro h
  rw [components_of_absolute (h.alike.mpr hp)] at hr
  cases hr

theorem name_mem_steps {name : List Char} (h : fileName? (components path) = some name) :
    .name name ∈ steps path := by
  have hmem : .name name ∈ components path := by
    rw [fileName?] at h
    split at h
    next text hlast =>
      obtain rfl := Option.some.inj h
      exact List.mem_of_getLast? hlast
    next => cases h
  by_cases hp : IsAbsolute path
  · rw [components_of_absolute hp] at hmem
    exact (List.mem_cons.mp hmem).resolve_left (by simp)
  · rwa [components_of_relative hp] at hmem

/-! ### Other spellings of a path -/

/-- The same path with one slash more, one step `.` more, or `./` put in front. -/
inductive Padded : String → String → Prop
  | slash (front back : String) : Padded (front ++ "/" ++ back) (front ++ "//" ++ back)
  | dot (front back : String) : Padded (front ++ "/" ++ back) (front ++ "/./" ++ back)
  | start {path : String} (h : ¬ IsAbsolute path) : Padded path ("./" ++ path)

theorem steps_append (front back : String) : steps (front ++ "/" ++ back) = steps front ++ steps back := by
  have htext : (front ++ "/" ++ back).toList = front.toList ++ '/' :: back.toList := by simp
  rw [steps, htext, Text.split_append_cons, List.filterMap_append]
  rfl

theorem steps_slash (back : String) : steps ("/" ++ back) = steps back :=
  steps_append "" back

theorem steps_dot (back : String) : steps ("./" ++ back) = steps back :=
  steps_append "." back

/-- Behind a slash only the steps of a path count. -/
theorem components_append_congr (front : String) {back back' : String} (h : steps back' = steps back) :
    components (front ++ "/" ++ back') = components (front ++ "/" ++ back) := by
  have habsolute : IsAbsolute (front ++ "/" ++ back') ↔ IsAbsolute (front ++ "/" ++ back) := by
    simp [IsAbsolute, List.head?_append]
  simp only [components_eq, habsolute, steps_append, h]

theorem components_padded {p q : String} (h : Padded p q) : components q = components p := by
  cases h with
  | slash front back =>
    have hassoc : front ++ "//" ++ back = front ++ "/" ++ ("/" ++ back) := by
      simp [← String.toList_inj]
    rw [hassoc, components_append_congr front (steps_slash back)]
  | dot front back =>
    have hassoc : front ++ "/./" ++ back = front ++ "/" ++ ("./" ++ back) := by
      simp [← String.toList_inj]
    rw [hassoc, components_append_congr front (steps_dot back)]
  | start h =>
    have hrelative : ¬ IsAbsolute ("./" ++ p) := by simp [IsAbsolute]
    rw [components_of_relative h, components_of_relative hrelative, steps_dot]

theorem components_of_padded {p q : String} (h : Relation.ReflTransGen Padded p q) :
    components q = components p := by
  induction h with
  | refl => rfl
  | tail _ hstep ih => rw [components_padded hstep, ih]

/-! ### Ids -/

theorem tilesetId_of_append {rest : List Component} (h : components path = components root ++ rest)
    (hne : rest ≠ []) :
    tilesetId root path = String.ofList (Text.join '/' (rest.map Component.text)) := by
  obtain ⟨c, cs, rfl⟩ := List.exists_cons_of_ne_nil hne
  rw [tilesetId, (relativeTo?_eq_some_iff ..).mpr h]

theorem tilesetId_of_not_append {name : List Char} (hname : fileName? (components path) = some name)
    (h : ∀ rest, rest ≠ [] → components path ≠ components root ++ rest) :
    tilesetId root path = String.ofList name := by
  rw [tilesetId]
  split
  next c rest hr => exact absurd ((relativeTo?_eq_some_iff ..).mp hr) (h _ (by simp))
  next => rw [hname, Option.getD_some]

/-- A root without components takes the root of the file system for the first of what follows it. -/
theorem tilesetId_of_components_eq_nil (hr : components root = []) (hp : IsAbsolute path)
    (hne : steps path ≠ []) :
    tilesetId root path = String.ofList ('/' :: render (components path)) := by
  have hpath := components_of_absolute hp
  have hall : components path = components root ++ components path := by rw [hr, List.nil_append]
  obtain ⟨c, cs, hs⟩ := List.exists_cons_of_ne_nil hne
  rw [tilesetId_of_append hall (by simp [hpath]), hpath, render, hs]
  simp [Text.join, Component.text, List.intercalate]

theorem not_isAbsolute_join_text {rest : List Component} (h : rest ≠ [])
    (hsteps : ∀ c ∈ rest, c ∈ steps path) :
    ¬ IsAbsolute (String.ofList (Text.join '/' (rest.map Component.text))) := by
  obtain ⟨c, cs, rfl⟩ := List.exists_cons_of_ne_nil h
  obtain ⟨-, x, xs, hx, hslash⟩ := exists_part_of_mem_steps (hsteps c List.mem_cons_self)
  have hhead : (Text.join '/' ((c :: cs).map Component.text)).head? = some x := by
    cases cs <;> simp [Text.join, List.intercalate, hx]
  rw [IsAbsolute, String.toList_ofList, hhead]
  exact fun he => hslash (Option.some.inj he)

theorem not_isAbsolute_name {name : List Char} (h : .name name ∈ steps path) :
    ¬ IsAbsolute (String.ofList name) := by
  have hjoin := not_isAbsolute_join_text (List.cons_ne_nil (.name name) [])
    (fun c hc => List.mem_singleton.mp hc ▸ h)
  simpa [Text.join, Component.text, List.intercalate] using hjoin

end TileWorld.Path

namespace TileWorld.Store

open TileWorld.Path

theorem find?_of_loadFile {s s' : Store} {files : FileView} {root path id : String}
    {policy : HoldPolicy} (h : s.loadFile files root path policy = .ok (id, s')) :
    id = tilesetId root path ∧ ∃ t, s'.find? id = some t := by
  rw [loadFile, onSuccess_eq_ok_iff, publishFile] at h
  rcases s.offer_cases (Tileset.ofFile files root path policy) with
    ⟨e, ho, -⟩ | ⟨t, s'', ht, ho, hinsert⟩
  · simp [ho, Except.map] at h
  · obtain ⟨rfl, rfl⟩ : Path.tilesetId root path = id ∧ s'' = s' := by
      simpa [ho, Except.map] using h
    exact ⟨rfl, t, by rw [find?_insert hinsert, if_pos (Tileset.ofFile_id ht)]⟩

/-- A file that is loaded gets the id of its path. Below the root this is what follows the root;
elsewhere it is the name of the file, unless the root has no components and the path is absolute:
then it is the whole path with one more slash in front. No other id starts with a slash, and other
spellings of the root and the path have the same id. -/
theorem loadFile_tilesetId {root path : String} {name : List Char}
    (hname : fileName? (components path) = some name) :
    (∀ (s s' : Store) (files : FileView) (policy : HoldPolicy) (id : String),
      s.loadFile files root path policy = .ok (id, s') →
        id = tilesetId root path ∧ ∃ t, s'.find? id = some t) ∧
    (∀ rest, Below root path rest →
      tilesetId root path = String.ofList (Text.join '/' (rest.map Component.text))) ∧
    ((∀ rest, ¬ Below root path rest) →
      tilesetId root path =
        if components root = [] ∧ IsAbsolute path then
          String.ofList ('/' :: render (components path))
        else String.ofList name) ∧
    (IsAbsolute (tilesetId root path) ↔ components root = [] ∧ IsAbsolute path) ∧
    ∀ root' path', Relation.ReflTransGen Padded root root' → Relation.ReflTransGen Padded path path' →
      tilesetId root' path' = tilesetId root path := by
  have hstep := name_mem_steps hname
  have hbelow (rest : List Component) (h : Below root path rest) :=
    tilesetId_of_append h.follows h.ne_nil
  have hwhole (h : components root = [] ∧ IsAbsolute path) :=
    tilesetId_of_components_eq_nil h.1 h.2 (List.ne_nil_of_mem hstep)
  have houtside (hout : ∀ rest, ¬ Below root path rest)
      (h : ¬ (components root = [] ∧ IsAbsolute path)) :
      tilesetId root path = String.ofList name := by
    refine tilesetId_of_not_append hname fun rest hne hfollows => ?_
    rcases alike_of_append hfollows with halike | hnil
    · exact hout rest ⟨halike, hfollows, hne⟩
    · exact h hnil
  refine ⟨fun s s' files policy id => find?_of_loadFile, hbelow, fun hout => ?_, ?_, ?_⟩
  · split
    next h => exact hwhole h
    next h => exact houtside hout h
  · constructor
    · intro habs
      -- Below the root and by name an id starts with the text of a step, which has no slash.
      by_contra h
      by_cases hb : ∃ rest, Below root path rest
      · obtain ⟨rest, hb⟩ := hb
        rw [hbelow rest hb] at habs
        exact not_isAbsolute_join_text hb.ne_nil
          (fun c hc => hb.steps_eq ▸ List.mem_append_right _ hc) habs
      · rw [houtside (not_exists.mp hb) h] at habs
        exact not_isAbsolute_name hstep habs
    · intro h
      rw [hwhole h, IsAbsolute, String.toList_ofList]
      rfl
  · intro root' path' hroot hpath
    rw [tilesetId, tilesetId, components_of_padded hroot, components_of_padded hpath]

/-- A file two folders below the root, the root written with a step `.` and a slash too many. -/
theorem loadFile_tilesetId_yellow :
    fileName? (components "assets/tilesets/actors/yellow.json") = some "yellow.json".toList ∧
      tilesetId "./assets//tilesets" "assets/tilesets/actors/yellow.json" = "actors/yellow.json" := by
  have hname : fileName? (components "assets/tilesets/actors/yellow.json") =
      some "yellow.json".toList := by decide +kernel
  have hbelow : Below "assets/tilesets" "assets/tilesets/actors/yellow.json"
      [.name "actors".toList, .name "yellow.json".toList] :=
    ⟨by decide +kernel, by decide +kernel, by simp⟩
  have hroot : Relation.ReflTransGen Padded "assets/tilesets" "./assets//tilesets" :=
    .tail (.single (.slash "assets" "tilesets")) (.start (by decide +kernel))
  obtain ⟨-, hid, -, -, hspelling⟩ := @loadFile_tilesetId "assets/tilesets" _ _ hname
  refine ⟨hname, ?_⟩
  rw [hspelling _ _ hroot .refl, hid _ hbelow]
  decide +kernel

/-- An absolute path is not below a root that is written without components, and yet its id is not
the name of the file. -/
theorem exists_tilesetId_outside_ne_name :
    ¬ ∀ (root path : String) (name : List Char), fileName? (components path) = some name →
      (∀ rest, ¬ Below root path rest) → tilesetId root path = String.ofList name := by
  intro h
  have hname := h "." "/tmp/x.json" "x.json".toList (by decide +kernel)
    fun rest => not_below_of_components_eq_nil (by decide +kernel) (by decide +kernel)
  exact absurd hname (by decide +kernel)

end TileWorld.Store
