import TileWorld.Json.Decode
import TileWorld.Proofs.NumeralText

/-! Reading back what was written as JSON. A tree of values has doubles only, so that every single in
it is widened. It is still the same number, and a record of any depth comes back as it was wherever
there is room for its nesting. -/
namespace TileWorld

open Number

/-! ### Singles as doubles -/

theorem Number.exists_signed_of_isFinite {x : Float32} (hx : x.isFinite = true) :
    ∃ negative p, p < Format.single.infinity ∧
      x.toBits.toNat = Format.single.signed negative p := by
  obtain ⟨negative, p, hp, hbits⟩ :=
    Format.single.exists_signed (toNat_lt_signBit (S := .binary32) x.toBits.toBitVec)
  replace hbits : x.toBits.toNat = Format.single.signed negative p := hbits
  have hunpack : (singleValue x).unpacked.isFinite = true := by
    rw [← unpack_single]
    exact hx
  refine ⟨negative, p, ?_, hbits⟩
  rcases lt_trichotomy p Format.single.infinity with hlt | rfl | hgt
  · exact hlt
  · rw [singleValue, hbits, Format.value_infinity] at hunpack
    cases hunpack
  · rw [singleValue, hbits, Format.value_nan negative hgt hp] at hunpack
    cases hunpack

theorem Number.narrow_widen {x : Float32} (hx : x.isFinite = true) : narrow (widen x) = x := by
  obtain ⟨negative, p, hp, hbits⟩ := exists_signed_of_isFinite hx
  obtain ⟨hfinite, hexact⟩ := rat_rounded_single hp
  have hwiden : (widen x).toBits.toNat =
      Format.double.signed negative (Format.double.rounded (Format.single.rat p)) := by
    rw [widen, singleValue, hbits, Format.value_finite negative hp, Format.encode_finite]
    exact toNat_doubleOfPattern negative hfinite.le
  apply eq_of_toNat_toBits
  rw [narrow, doubleValue, hwiden, Format.value_finite negative hfinite, Format.encode_finite, hbits]
  change (singleOfPattern (Format.single.signed negative (Format.single.rounded
    (Format.double.rat (Format.double.rounded (Format.single.rat p)))))).toBits.toNat = _
  rw [hexact, Format.rounded_rat hp]
  exact toNat_singleOfPattern negative hp.le

namespace Json

/-! ### Forms of singles -/

mutual

/-- A value with its singles in another form. -/
def mapSingles (form : Float32 → Json) : Json → Json
  | .single x => form x
  | .array items => .array (mapItems form items)
  | .object members => .object (mapMembers form members)
  | json => json

def mapItems (form : Float32 → Json) : List Json → List Json
  | [] => []
  | item :: items => mapSingles form item :: mapItems form items

def mapMembers (form : Float32 → Json) : List (String × Json) → List (String × Json)
  | [] => []
  | (name, value) :: members => (name, mapSingles form value) :: mapMembers form members

end

/-- A value with double precision throughout. -/
def widened (json : Json) : Json :=
  json.mapSingles fun x => .float (widen x)

/-- A form of singles in which each finite one is read as the single it is. -/
def KeepsSingles (form : Float32 → Json) : Prop :=
  ∀ x : Float32, x.isFinite = true → single? (form x) = some x

theorem keepsSingles_single : KeepsSingles .single :=
  fun _ _ => rfl

theorem keepsSingles_widen : KeepsSingles fun x => .float (widen x) :=
  fun _ hx => congrArg some (narrow_widen hx)

theorem mapItems_eq_map (form : Float32 → Json) (items : List Json) :
    mapItems form items = items.map (mapSingles form) := by
  induction items with
  | nil => rfl
  | cons item items ih => rw [mapItems, ih, List.map_cons]

theorem mapMembers_eq_map (form : Float32 → Json) (members : List (String × Json)) :
    mapMembers form members = members.map fun m => (m.1, mapSingles form m.2) := by
  induction members with
  | nil => rfl
  | cons m members ih => rw [mapMembers, ih, List.map_cons]

mutual

theorem mapSingles_single : ∀ json : Json, json.mapSingles .single = json
  | .null | .bool _ | .int _ | .float _ | .single _ | .string _ | .unreadable => rfl
  | .array items => by rw [mapSingles, mapItems_single items]
  | .object members => by rw [mapSingles, mapMembers_single members]

theorem mapItems_single : ∀ items : List Json, mapItems .single items = items
  | [] => rfl
  | item :: items => by rw [mapItems, mapSingles_single item, mapItems_single items]

theorem mapMembers_single : ∀ members : List (String × Json), mapMembers .single members = members
  | [] => rfl
  | (name, value) :: members => by
    rw [mapMembers, mapSingles_single value, mapMembers_single members]

end

mutual

/-- The levels of arrays and objects in a value. -/
def depth : Json → ℕ
  | .array items => itemsDepth items + 1
  | .object members => membersDepth members + 1
  | _ => 0

def itemsDepth : List Json → ℕ
  | [] => 0
  | item :: items => max (depth item) (itemsDepth items)

def membersDepth : List (String × Json) → ℕ
  | [] => 0
  | (_, value) :: members => max (depth value) (membersDepth members)

end

theorem itemsDepth_le_iff {items : List Json} {room : ℕ} :
    itemsDepth items ≤ room ↔ ∀ item ∈ items, item.depth ≤ room := by
  induction items with
  | nil => simp [itemsDepth]
  | cons item items ih => rw [itemsDepth, max_le_iff, ih, List.forall_mem_cons]

theorem membersDepth_le_iff {members : List (String × Json)} {room : ℕ} :
    membersDepth members ≤ room ↔ ∀ m ∈ members, m.2.depth ≤ room := by
  induction members with
  | nil => simp [membersDepth]
  | cons m members ih => rw [membersDepth, max_le_iff, ih, List.forall_mem_cons]

/-! ### Values that are kept as they are -/

/-- A tree that a reader may hold: no single, nothing unreadable, and no member named twice. -/
inductive IsValue : Json → Prop where
  | null : IsValue .null
  | bool (b : Bool) : IsValue (.bool b)
  | int (n : ℤ) : IsValue (.int n)
  | float (x : Float) : IsValue (.float x)
  | string (s : String) : IsValue (.string s)
  | array {items : List Json} (hitems : ∀ item ∈ items, IsValue item) : IsValue (.array items)
  | object {members : List (String × Json)} (hnames : (members.map Prod.fst).Nodup)
      (hvalues : ∀ m ∈ members, IsValue m.2) : IsValue (.object members)

/-- A value holds no single. -/
theorem IsValue.mapSingles {json : Json} (h : json.IsValue) (form : Float32 → Json) :
    json.mapSingles form = json := by
  induction h with
  | null | bool | int | float | string => rfl
  | array _ ih => rw [Json.mapSingles, mapItems_eq_map, List.map_congr_left ih, List.map_id']
  | object _ _ ih =>
    have hsame := List.map_congr_left fun m hm => congrArg (Prod.mk m.1) (ih m hm)
    rw [Json.mapSingles, mapMembers_eq_map, hsame, List.map_id']

theorem mapM_eq_some_self {α : Type} {read : α → Option α} {xs : List α}
    (h : ∀ x ∈ xs, read x = some x) : xs.mapM read = some xs := by
  induction xs with
  | nil => rfl
  | cons x xs ih =>
    obtain ⟨hx, hxs⟩ := List.forall_mem_cons.mp h
    rw [List.mapM_cons, hx, ih hxs]
    rfl

/-- Members of different names are collected in their order. -/
theorem foldl_put (members kept : List (String × Json))
    (hnames : ((kept ++ members).map Prod.fst).Nodup) :
    members.foldl (fun kept m => put kept m.1 m.2) kept = kept ++ members := by
  induction members generalizing kept with
  | nil => rw [List.foldl_nil, List.append_nil]
  | cons m members ih =>
    -- A name that is not there yet is put at the end.
    have hfresh : kept.any (·.1 = m.1) = false := by
      rw [List.map_append, List.map_cons] at hnames
      rw [List.any_eq_false]
      intro m' hm' heq
      exact List.disjoint_of_nodup_append hnames (List.mem_map_of_mem hm')
        (List.mem_cons.mpr (Or.inl (of_decide_eq_true heq)))
    have hput : put kept m.1 m.2 = kept ++ [m] := by
      rw [put, hfresh]
      rfl
    rw [List.append_cons] at hnames
    rw [List.foldl_cons, hput, ih _ hnames, ← List.append_cons]

theorem IsValue.keep? {json : Json} (h : json.IsValue) :
    ∀ {room : ℕ}, json.depth ≤ room → json.keep? room = some json := by
  induction h with
  | null | bool | int | float | string =>
    rintro (_ | room) - <;> rfl
  | array _ ih =>
    rintro (_ | room) hroom
    · cases hroom
    · have hdepth := itemsDepth_le_iff.mp (Nat.le_of_succ_le_succ hroom)
      rw [Json.keep?, mapM_eq_some_self fun item hitem => ih item hitem (hdepth item hitem)]
      rfl
  | @object members hnames _ ih =>
    rintro (_ | room) hroom
    · cases hroom
    · have hdepth := membersDepth_le_iff.mp (Nat.le_of_succ_le_succ hroom)
      have hmembers : (members.mapM fun m => (Json.keep? room m.2).map (m.1, ·)) = some members := by
        refine mapM_eq_some_self fun m hm => ?_
        rw [ih m hm (hdepth m hm)]
        rfl
      have hall := foldl_put members [] hnames
      rw [Json.keep?]
      simp only [hmembers, Option.bind_eq_bind, Option.bind_some, hall, List.nil_append]

/-! ### Records -/

/-- The members of a record, whose absent fields are left out. -/
def present (fields : List (String × Option Json)) : List (String × Json) :=
  fields.filterMap fun field => field.2.map (field.1, ·)

variable {fields : List (String × Option Json)}

theorem mem_present {m : String × Json} : m ∈ present fields ↔ (m.1, some m.2) ∈ fields := by
  obtain ⟨name, value⟩ := m
  simp [present]

theorem map_fst_present (fields : List (String × Option Json)) :
    ((present fields).map Prod.fst).Sublist (fields.map Prod.fst) := by
  induction fields with
  | nil => exact .slnil
  | cons field fields ih =>
    obtain ⟨name, _ | value⟩ := field
    · exact ih.cons name
    · exact ih.cons_cons name

theorem lookup_of_mem {members : List (String × Json)} (hnames : (members.map Prod.fst).Nodup)
    {name : String} {value : Json} (h : (name, value) ∈ members) :
    members.lookup name = some value := by
  obtain ⟨before, after, rfl⟩ := List.append_of_mem h
  refine List.lookup_eq_some_iff.mpr ⟨before, after, rfl, fun m hm => bne_iff_ne.mpr ?_⟩
  rintro rfl
  rw [List.map_append] at hnames
  exact List.disjoint_of_nodup_append hnames (List.mem_map_of_mem hm) List.mem_cons_self

theorem lookup_present (hnames : (fields.map Prod.fst).Nodup) :
    ∀ field ∈ fields, (present fields).lookup field.1 = field.2 := by
  rintro ⟨name, _ | value⟩ hfield
  · refine List.lookup_eq_none_iff.mpr fun m hm => bne_iff_ne.mpr ?_
    rintro rfl
    have hsame := List.inj_on_of_nodup_map hnames hfield (mem_present.mp hm) rfl
    cases hsame
  · exact lookup_of_mem (hnames.sublist (map_fst_present fields)) (mem_present.mpr hfield)

theorem fields?_present (hnames : (fields.map Prod.fst).Nodup) :
    fields? (fields.map Prod.fst) (.object (present fields)) = some (fields.map Prod.snd) := by
  have honce : ∀ name ∈ fields.map Prod.fst, ((present fields).filter (·.1 = name)).length ≤ 1 := by
    intro name _
    have := List.nodup_iff_count_le_one.mp (hnames.sublist (map_fst_present fields)) name
    rwa [List.count, List.countP_map, List.countP_eq_length_filter] at this
  rw [fields?, if_pos (by simpa using honce), List.map_map]
  exact congrArg some (List.map_congr_left (lookup_present hnames))

/-- The other form of a record is the record of its fields in the other form. -/
theorem mapMembers_present (form : Float32 → Json) (fields : List (String × Option Json)) :
    mapMembers form (present fields) =
      present (fields.map fun field => (field.1, field.2.map (mapSingles form))) := by
  rw [mapMembers_eq_map, present, present, List.map_filterMap, List.filterMap_map]
  congr 1
  funext field
  simp [Function.comp_def]

@[simp] theorem required_some {α : Type} (read : Json → Option α) (value : Json) :
    required read (some value) = read value := rfl

@[simp] theorem defaulting_some {α : Type} (x : α) (read : Json → Option α) (value : Json) :
    defaulting x read (some value) = read value := rfl

/-! ### What is written comes back -/

/-- What is written of a value is read as that value in another form of its singles, wherever there
is room for it. -/
def Restores {α : Type} (form : Float32 → Json) (write : α → Json) (read : ℕ → Json → Option α)
    (x : α) : Prop :=
  ∀ room, (write x).depth ≤ room → read room ((write x).mapSingles form) = some x

/-- A record comes back if its fields are read as they were written or left out. -/
theorem Restores.record {α : Type} {form : Float32 → Json} {write : α → Json} (names : List String)
    {read : ℕ → List (Option Json) → Option α} {x : α} (hwrite : write x = .object (present fields))
    (hfields : fields.map Prod.fst = names) (hnames : names.Nodup)
    (h : ∀ inner, (∀ name value, (name, some value) ∈ fields → value.depth ≤ inner) →
      read inner (fields.map fun field => field.2.map (mapSingles form)) = some x) :
    Restores form write (record? names read) x := by
  intro room hroom
  rw [hwrite] at hroom ⊢
  cases room with
  | zero => cases hroom
  | succ inner =>
    have hdepth := membersDepth_le_iff.mp (Nat.le_of_succ_le_succ hroom)
    have hform : (fields.map fun field => (field.1, field.2.map (mapSingles form))).map Prod.fst =
        names := by
      rw [List.map_map]
      exact hfields
    rw [← hform] at hnames ⊢
    rw [mapSingles, mapMembers_present, record?, fields?_present hnames, Option.bind_some, List.map_map]
    exact h inner fun name value hvalue => hdepth (name, value) (mem_present.mpr hvalue)

theorem Restores.list? {α : Type} {form : Float32 → Json} {write : α → Json}
    {read : ℕ → Json → Option α} {xs : List α} (h : ∀ x ∈ xs, Restores form write read x) :
    Restores form (fun xs => .array (xs.map write)) (Json.list? read) xs := by
  rintro (_ | room) hroom
  · cases hroom
  · have hdepth := itemsDepth_le_iff.mp (Nat.le_of_succ_le_succ hroom)
    rw [mapSingles, mapItems_eq_map, Json.list?, List.map_map, List.mapM_map]
    refine mapM_eq_some_self fun x hx => ?_
    exact h x hx room (hdepth _ (List.mem_map_of_mem hx))

/-- A list that is left out when it is empty. -/
def itemsField {α : Type} (write : α → Json) (xs : List α) : Option Json :=
  if xs.isEmpty then none else some (.array (xs.map write))

theorem Restores.defaulting {α : Type} {form : Float32 → Json} {write : α → Json}
    {read : ℕ → Json → Option α} {xs : List α} (h : ∀ x ∈ xs, Restores form write read x) {room : ℕ}
    (hroom : ∀ value, itemsField write xs = some value → value.depth ≤ room) :
    Json.defaulting [] (Json.list? read room) ((itemsField write xs).map (mapSingles form)) = some xs := by
  cases xs with
  | nil => rfl
  | cons x xs => exact Restores.list? h room (hroom _ rfl)

variable {form : Float32 → Json}

/-- A list of which nothing is written when there is none, but something when it is empty. -/
theorem Restores.nullable {α : Type} {write : α → Json} {read : ℕ → Json → Option α}
    {list : Option (List α)} (h : ∀ xs, list = some xs → ∀ x ∈ xs, Restores form write read x) {room : ℕ}
    (hroom : ∀ xs, list = some xs → (array (xs.map write)).depth ≤ room) :
    Json.defaulting none (nullable? (Json.list? read room))
      ((list.map fun xs => .array (xs.map write)).map (mapSingles form)) = some list := by
  cases list with
  | none => rfl
  | some xs => exact congrArg (Option.map some) (Restores.list? (h xs rfl) room (hroom xs rfl))

theorem word?_ofWord (n : UInt32) : word? ((ofWord n).mapSingles form) = some n := by
  have := n.toNat_lt
  change word? (.int n.toNat) = some n
  rw [word?, if_pos (by omega), Int.toNat_natCast, UInt32.ofNat_toNat]

theorem nullable?_ofWord (n : Option UInt32) :
    defaulting none (nullable? word?) ((n.map ofWord).map (mapSingles form)) = some n := by
  cases n with
  | none => rfl
  | some n => exact congrArg (Option.map some) (word?_ofWord n)

theorem single?_ofSingle (hform : KeepsSingles form) {x : Float32} (hx : x.isFinite = true) :
    single? ((ofSingle x).mapSingles form) = some x := by
  rw [ofSingle, if_pos hx, mapSingles]
  exact hform x hx

end Json

end TileWorld
