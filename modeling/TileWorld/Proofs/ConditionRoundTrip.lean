import TileWorld.Proofs.ConditionParts
import TileWorld.Proofs.JsonRecords

/-! Conditions come back from their JSON form. The name of its kind says how the content of a
condition is read, so that no constant is taken for one of the other kind. -/
namespace TileWorld

open Json (KeepsSingles present mapSingles Restores)

theorem Comparison.ofJson?_toJson_mapSingles (form : Float32 → Json) (room : ℕ) (op : Comparison) :
    ofJson? room (op.toJson.mapSingles form) = some op := by
  have hname : ofName? op.name = some op := by
    cases op <;> decide
  change ofJson? room (.string op.name) = some op
  rw [ofJson?, hname]

theorem Json.signedWord?_toInt (form : Float32 → Json) (n : Int32) :
    signedWord? ((int n.toInt).mapSingles form) = some n := by
  have hlow := n.le_toInt
  have hhigh := n.toInt_lt
  change signedWord? (.int n.toInt) = some n
  rw [signedWord?, if_pos (by omega), Int32.ofInt_toInt]

namespace Condition

/-- All scalars that a condition compares with are finite. -/
def IsFinite (c : Condition) : Prop :=
  ∀ key op value, Part (.scalar key op value) c → value.isFinite = true

variable {form : Float32 → Json} {positional : Bool} {c : Condition}

/-- A condition comes back if its content does, under the name of its kind. -/
theorem restores_tagged {kind : String} {content : Json} {read : ℕ → Json → Option Condition}
    (hjson : c.toJson = tagged kind content)
    (hread : ∀ room content, ofJson? positional (room + 1) (tagged kind content) = read room content)
    (h : Restores form (fun _ => content) read c) : Restores form toJson (ofJson? positional) c := by
  rintro (_ | room) hroom
  · rw [hjson] at hroom
    cases hroom
  · rw [hjson] at hroom ⊢
    have hdepth := Json.membersDepth_le_iff.mp (Nat.le_of_succ_le_succ hroom)
    exact (hread room _).trans (h room (hdepth (kind, content) List.mem_cons_self))

theorem restores_content {names : List String} {read : ℕ → List (Option Json) → Option Condition}
    (fields : List (String × Option Json)) (hfields : fields.map Prod.fst = names)
    (hnames : names.Nodup)
    (h : ∀ inner, read inner (fields.map fun field => field.2.map (mapSingles form)) = some c) :
    Restores form (fun _ => .object (present fields)) (content? positional names read) c := by
  have hrecord : Restores form (fun _ => .object (present fields)) (Json.record? names read) c :=
    Restores.record names rfl hfields hnames fun inner _ => h inner
  exact hrecord

/-- A comparison comes back if its constant does. -/
theorem restores_comparison {α : Type} {constant? : Json → Option α}
    {make : String → Comparison → α → Condition} (key : String) (op : Comparison) {constant : α}
    {value : Json} (hvalue : constant? (value.mapSingles form) = some constant) :
    Restores form (fun _ => .object [("key", .string key), ("op", op.toJson), ("value", value)])
      (comparison? positional constant? make) (make key op constant) := by
  refine restores_content
    [("key", some (.string key)), ("op", some op.toJson), ("value", some value)] rfl (by decide)
    fun inner => ?_
  have hop := Comparison.ofJson?_toJson_mapSingles form inner op
  simp [hop, hvalue, mapSingles, Json.string?]

theorem restores_flag {make : String → Condition} (key : String) :
    Restores form (fun _ => keyed key) (flag? positional make) (make key) := by
  refine restores_content [("key", some (.string key))] rfl (by decide) fun inner => ?_
  simp [mapSingles, Json.string?]

theorem restores_list {cs : List Condition}
    (h : ∀ c ∈ cs, Restores form toJson (ofJson? positional) c) (make : List Condition → Condition) :
    Restores form (fun _ => .array (toJsons cs))
      (fun room json => (ofJson?.list? positional room json).map make) (make cs) := by
  rintro (_ | room) hroom
  · cases hroom
  · have hlist := Restores.list? h (room + 1)
    rw [toJsons_eq] at hroom ⊢
    exact congrArg (Option.map make) (hlist hroom)

theorem restores_not (h : Restores form toJson (ofJson? positional) c) :
    Restores form (fun _ => c.toJson)
      (fun room json => (ofJson? positional room json).map Condition.not) (.not c) :=
  fun room hroom => congrArg (Option.map Condition.not) (h room hroom)

theorem restores (hform : KeepsSingles form) (hc : c.IsFinite) :
    Restores form toJson (ofJson? positional) c := by
  induction c with
  | scalar key op value =>
    have hvalue := Json.single?_ofSingle hform (hc key op value .self)
    exact restores_tagged rfl (fun _ _ => rfl) (restores_comparison key op hvalue)
  | integer key op value =>
    have hvalue := Json.signedWord?_toInt form value
    exact restores_tagged rfl (fun _ _ => rfl) (restores_comparison key op hvalue)
  | hasFlag key => exact restores_tagged rfl (fun _ _ => rfl) (restores_flag key)
  | lacksFlag key => exact restores_tagged rfl (fun _ _ => rfl) (restores_flag key)
  | all cs ih =>
    have hcs := fun c hmem => ih c hmem fun key op value hp => hc key op value (.all hmem hp)
    exact restores_tagged rfl (fun _ _ => rfl) (restores_list hcs .all)
  | any cs ih =>
    have hcs := fun c hmem => ih c hmem fun key op value hp => hc key op value (.any hmem hp)
    exact restores_tagged rfl (fun _ _ => rfl) (restores_list hcs .any)
  | not c ih =>
    have hc := ih fun key op value hp => hc key op value (.not hp)
    exact restores_tagged rfl (fun _ _ => rfl) (restores_not hc)

/-- A condition comes back from the JSON value that is written of it, in single precision or in
double, wherever there is room for the levels of that value. -/
theorem ofJson?_written (hc : c.IsFinite) {room : ℕ} (hroom : c.toJson.depth ≤ room) :
    ofJson? positional room c.toJson = some c ∧ ofJson? positional room c.toJson.widened = some c := by
  constructor
  · have hsingle : ofJson? positional room (c.toJson.mapSingles .single) = some c :=
      restores Json.keepsSingles_single hc room hroom
    rwa [Json.mapSingles_single] at hsingle
  · exact restores Json.keepsSingles_widen hc room hroom

/-- Constants of both kinds that look alike in JSON, under lists of every length. -/
def lever : Condition :=
  .any [.all [], .not (.all [.scalar "pull" .ge (.ofBits 0x40400000), .integer "pull" .ne (-3)]),
    .scalar "" .eq (.ofBits 0x80000000), .lacksFlag "a\"b", .any [.hasFlag "stuck"]]

theorem ofJson?_written_lever :
    (lever.IsFinite ∧ lever.toJson.depth ≤ Json.textRoom) ∧
      ofJson? true Json.textRoom lever.toJson = some lever ∧
      ofJson? true Json.textRoom lever.toJson.widened = some lever := by
  have hfinite : lever.IsFinite := by
    intro key op value hp
    have hvalue : value = .ofBits 0x40400000 ∨ value = .ofBits 0x80000000 := by
      simp [lever] at hp
      exact hp.imp (·.2.2) (·.2.2)
    rcases hvalue with rfl | rfl
    · decide
    · decide
  have hdepth : lever.toJson.depth ≤ Json.textRoom := by decide
  exact ⟨⟨hfinite, hdepth⟩, ofJson?_written hfinite hdepth⟩

end Condition

end TileWorld
