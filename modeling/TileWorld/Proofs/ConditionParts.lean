import TileWorld.Animation.Condition

/-! Conditions within conditions. Induction on a condition goes through its lists and has a
hypothesis on every condition in them. -/
namespace TileWorld.Condition

@[elab_as_elim, induction_eliminator]
theorem byParts {motive : Condition → Prop}
    (scalar : ∀ key op value, motive (.scalar key op value))
    (integer : ∀ key op value, motive (.integer key op value))
    (hasFlag : ∀ key, motive (.hasFlag key)) (lacksFlag : ∀ key, motive (.lacksFlag key))
    (all : ∀ cs, (∀ c ∈ cs, motive c) → motive (.all cs))
    (any : ∀ cs, (∀ c ∈ cs, motive c) → motive (.any cs))
    (not : ∀ c, motive c → motive (.not c)) : ∀ c, motive c
  | .scalar key op value => scalar key op value
  | .integer key op value => integer key op value
  | .hasFlag key => hasFlag key
  | .lacksFlag key => lacksFlag key
  | .all cs => all cs fun c _ => byParts scalar integer hasFlag lacksFlag all any not c
  | .any cs => any cs fun c _ => byParts scalar integer hasFlag lacksFlag all any not c
  | .not c => not c (byParts scalar integer hasFlag lacksFlag all any not c)

/-- A condition within a condition, at any depth. -/
inductive Part (a : Condition) : Condition → Prop where
  | self : Part a a
  | all {c : Condition} {cs : List Condition} (hc : c ∈ cs) (h : Part a c) : Part a (.all cs)
  | any {c : Condition} {cs : List Condition} (hc : c ∈ cs) (h : Part a c) : Part a (.any cs)
  | not {c : Condition} (h : Part a c) : Part a (.not c)

variable {a : Condition} {cs : List Condition}

@[simp] theorem part_scalar_iff {key : String} {op : Comparison} {value : Float32} :
    Part a (.scalar key op value) ↔ a = .scalar key op value :=
  ⟨fun h => by cases h; rfl, fun h => h ▸ .self⟩

@[simp] theorem part_integer_iff {key : String} {op : Comparison} {value : Int32} :
    Part a (.integer key op value) ↔ a = .integer key op value :=
  ⟨fun h => by cases h; rfl, fun h => h ▸ .self⟩

@[simp] theorem part_hasFlag_iff {key : String} : Part a (.hasFlag key) ↔ a = .hasFlag key :=
  ⟨fun h => by cases h; rfl, fun h => h ▸ .self⟩

@[simp] theorem part_lacksFlag_iff {key : String} : Part a (.lacksFlag key) ↔ a = .lacksFlag key :=
  ⟨fun h => by cases h; rfl, fun h => h ▸ .self⟩

@[simp] theorem part_all_iff : Part a (.all cs) ↔ a = .all cs ∨ ∃ c ∈ cs, Part a c := by
  constructor
  · rintro (_ | ⟨hc, h⟩)
    · exact Or.inl rfl
    · exact Or.inr ⟨_, hc, h⟩
  · rintro (rfl | ⟨c, hc, h⟩)
    · exact .self
    · exact .all hc h

@[simp] theorem part_any_iff : Part a (.any cs) ↔ a = .any cs ∨ ∃ c ∈ cs, Part a c := by
  constructor
  · rintro (_ | _ | ⟨hc, h⟩)
    · exact Or.inl rfl
    · exact Or.inr ⟨_, hc, h⟩
  · rintro (rfl | ⟨c, hc, h⟩)
    · exact .self
    · exact .any hc h

@[simp] theorem part_not_iff {c : Condition} : Part a (.not c) ↔ a = .not c ∨ Part a c := by
  constructor
  · rintro (_ | _ | _ | h)
    · exact Or.inl rfl
    · exact Or.inr h
  · rintro (rfl | h)
    · exact .self
    · exact .not h

end TileWorld.Condition
