import TileWorld.Proofs.ConditionParts
import TileWorld.Proofs.FloatOrder

/-! Conditions and their duals. A condition is opposite to its dual wherever it has a verdict; where
it has none, because a comparison in it says nothing either way, both fail. -/
namespace TileWorld

open Number

namespace Comparison

/-- The comparison that holds where this one fails. -/
def opposite : Comparison → Comparison
  | .lt => .ge
  | .le => .gt
  | .gt => .le
  | .ge => .lt
  | .eq => .ne
  | .ne => .eq

def isEquality : Comparison → Bool
  | .eq | .ne => true
  | .lt | .le | .gt | .ge => false

theorem isEquality_opposite (op : Comparison) : op.opposite.isEquality = op.isEquality := by
  cases op <;> rfl

theorem compareInt_opposite (op : Comparison) (a b : Int32) :
    op.opposite.compareInt a b = !op.compareInt a b := by
  cases op with
  | lt | gt => simp only [opposite, compareInt, ← Int32.not_lt, decide_not]
  | le | ge => simp only [opposite, compareInt, ← Int32.not_le, decide_not]
  | eq => rfl
  | ne => exact (Bool.not_not _).symm

/-- A comparison says nothing of a NaN, and about equality nothing of an infinity and itself. -/
def IsSilent (op : Comparison) (x y : Float32) : Prop :=
  x.isNaN = true ∨ y.isNaN = true ∨ op.isEquality = true ∧ x = y ∧ x.isInf = true

instance (op : Comparison) (x y : Float32) : Decidable (op.IsSilent x y) :=
  inferInstanceAs (Decidable (_ ∨ _ ∨ _ ∧ _ ∧ _))

variable {op : Comparison} {x y : Float32}

/-- Whether two scalars are equal is asked of their distance, and a NaN has none. -/
theorem isSilent_of_isEquality (h : op.isEquality = true) :
    op.IsSilent x y ↔ (x - y).abs.isNaN = true := by
  rw [IsSilent, isNaN_abs_sub_iff, h]
  simp

theorem isSilent_of_not_isEquality (h : op.isEquality = false) :
    op.IsSilent x y ↔ x.isNaN = true ∨ y.isNaN = true := by
  rw [IsSilent, h]
  simp

theorem compareScalar_of_isSilent (h : op.IsSilent x y) : op.compareScalar x y = false := by
  cases op with
  | lt => exact decide_eq_false (single_incomparable ((isSilent_of_not_isEquality rfl).mp h)).1
  | le => exact decide_eq_false (single_incomparable ((isSilent_of_not_isEquality rfl).mp h)).2
  | gt => exact decide_eq_false (single_incomparable ((isSilent_of_not_isEquality rfl).mp h).symm).1
  | ge => exact decide_eq_false (single_incomparable ((isSilent_of_not_isEquality rfl).mp h).symm).2
  | eq => exact decide_eq_false (single_incomparable (Or.inl ((isSilent_of_isEquality rfl).mp h))).1
  | ne => exact decide_eq_false (single_incomparable (Or.inr ((isSilent_of_isEquality rfl).mp h))).2

theorem compareScalar_opposite (h : ¬ op.IsSilent x y) :
    op.opposite.compareScalar x y = !op.compareScalar x y := by
  -- Every comparison is a less of two values, or the failure of one.
  have hless {u v : Float32} (huv : ¬ (u.isNaN = true ∨ v.isNaN = true)) :
      decide (u < v) = !decide (v ≤ u) ∧ decide (v ≤ u) = !decide (u < v) := by
    rw [single_lt_eq_not_le huv, Bool.not_not]
    exact ⟨rfl, rfl⟩
  have hdistance (hop : op.isEquality = true) :
      ¬ ((x - y).abs.isNaN = true ∨ epsilon.isNaN = true) := by
    have hepsilon : epsilon.isNaN = false := by decide
    rw [← isSilent_of_isEquality hop, hepsilon]
    simpa using h
  cases op with
  | lt => exact (hless (mt (isSilent_of_not_isEquality rfl).mpr h)).2
  | ge => exact (hless (mt (isSilent_of_not_isEquality rfl).mpr h)).1
  | le => exact (hless (mt (isSilent_of_not_isEquality rfl).mpr h ∘ Or.symm)).1
  | gt => exact (hless (mt (isSilent_of_not_isEquality rfl).mpr h ∘ Or.symm)).2
  | eq => exact (hless (hdistance rfl)).2
  | ne => exact (hless (hdistance rfl)).1

/-- What a comparison of two scalars says, if it says anything. -/
def verdict? (op : Comparison) (x y : Float32) : Option Bool :=
  if op.IsSilent x y then none else some (op.compareScalar x y)

theorem compareScalar_verdict (op : Comparison) (x y : Float32) :
    op.compareScalar x y = (op.verdict? x y == some true) ∧
      op.opposite.compareScalar x y = (op.verdict? x y == some false) := by
  rw [verdict?]
  split
  next h =>
    have hopposite : op.opposite.IsSilent x y := by rwa [IsSilent, isEquality_opposite]
    exact ⟨compareScalar_of_isSilent h, compareScalar_of_isSilent hopposite⟩
  next h => simp [compareScalar_opposite h]

end Comparison

namespace Condition

mutual

/-- Every comparison becomes its opposite, every question about a flag the other one, and `all` and
`any` change places. A negation is taken off. -/
def dual : Condition → Condition
  | .scalar key op value => .scalar key op.opposite value
  | .integer key op value => .integer key op.opposite value
  | .hasFlag key => .lacksFlag key
  | .lacksFlag key => .hasFlag key
  | .all cs => .any (listDual cs)
  | .any cs => .all (listDual cs)
  | .not c => c

def listDual : List Condition → List Condition
  | [] => []
  | c :: cs => dual c :: listDual cs

end

/-- The verdict on two parts of which one is enough for `b`, while for the other both are needed. -/
def join (b : Bool) (v w : Option Bool) : Option Bool :=
  if v = some b ∨ w = some b then some b
  else if v = none ∨ w = none then none
  else some !b

mutual

/-- Whether a condition is true or false of some signals, or neither. -/
def verdict? (s : Signals) : Condition → Option Bool
  | .scalar key op value => (s.scalar? key).bind fun x => op.verdict? x value
  | .integer key op value => (s.integer? key).map fun x => op.compareInt x value
  | .hasFlag key => some (s.hasFlag key)
  | .lacksFlag key => some (!s.hasFlag key)
  | .all cs => listVerdict? s false cs
  | .any cs => listVerdict? s true cs
  | .not c => some (!c.holds s)

def listVerdict? (s : Signals) (b : Bool) : List Condition → Option Bool
  | [] => some !b
  | c :: cs => join b (verdict? s c) (listVerdict? s b cs)

end

theorem join_eq_self (b : Bool) (v w : Option Bool) :
    (join b v w == some b) = ((v == some b) || (w == some b)) := by
  rcases v with _ | _ | _ <;> rcases w with _ | _ | _ <;> cases b <;> rfl

theorem join_eq_other (b : Bool) (v w : Option Bool) :
    (join b v w == some !b) = ((v == some !b) && (w == some !b)) := by
  rcases v with _ | _ | _ <;> rcases w with _ | _ | _ <;> cases b <;> rfl

theorem join_eq_none {b : Bool} {v w : Option Bool} (h : join b v w = none) : v = none ∨ w = none := by
  rw [join] at h
  split at h
  next => cases h
  next =>
    split at h
    next hnone => exact hnone
    next => cases h

variable {s : Signals}

mutual

/-- A condition holds for the verdict true, and its dual for the verdict false. -/
theorem holds_verdict : ∀ c : Condition,
    c.holds s = (c.verdict? s == some true) ∧ c.dual.holds s = (c.verdict? s == some false)
  | .scalar key op value => by
    rw [dual, holds, holds, verdict?]
    cases s.scalar? key with
    | none => exact ⟨rfl, rfl⟩
    | some x => exact op.compareScalar_verdict x value
  | .integer key op value => by
    rw [dual, holds, holds, verdict?]
    cases s.integer? key with
    | none => exact ⟨rfl, rfl⟩
    | some x =>
      have hopposite := op.compareInt_opposite x value
      simp [hopposite]
  | .hasFlag key | .lacksFlag key => by simp [dual, holds, verdict?]
  | .all cs => allHold_verdict cs
  | .any cs => anyHolds_verdict cs
  | .not c => by simp [dual, holds, verdict?]

theorem allHold_verdict : ∀ cs : List Condition,
    allHold s cs = (listVerdict? s false cs == some true) ∧
      anyHolds s (listDual cs) = (listVerdict? s false cs == some false)
  | [] => ⟨rfl, rfl⟩
  | c :: cs => by
    obtain ⟨hc, hdual⟩ := holds_verdict c
    obtain ⟨hcs, hduals⟩ := allHold_verdict cs
    rw [allHold, listDual, anyHolds, hc, hcs, hdual, hduals]
    exact ⟨(join_eq_other false _ _).symm, (join_eq_self false _ _).symm⟩

theorem anyHolds_verdict : ∀ cs : List Condition,
    anyHolds s cs = (listVerdict? s true cs == some true) ∧
      allHold s (listDual cs) = (listVerdict? s true cs == some false)
  | [] => ⟨rfl, rfl⟩
  | c :: cs => by
    obtain ⟨hc, hdual⟩ := holds_verdict c
    obtain ⟨hcs, hduals⟩ := anyHolds_verdict cs
    rw [anyHolds, listDual, allHold, hc, hcs, hdual, hduals]
    exact ⟨(join_eq_self true _ _).symm, (join_eq_other true _ _).symm⟩

end

/-- Every key compared is there, and no scalar compared is NaN. -/
structure Comparable (s : Signals) (c : Condition) : Prop where
  scalar : ∀ key op value, Part (.scalar key op value) c →
    value.isNaN = false ∧ ∃ x, s.scalar? key = some x ∧ x.isNaN = false
  integer : ∀ key op value, Part (.integer key op value) c → ∃ n, s.integer? key = some n

theorem Comparable.of_part {a c : Condition} (hc : c.Comparable s) (h : ∀ p, Part p a → Part p c) :
    a.Comparable s :=
  ⟨fun key op value hp => hc.scalar key op value (h _ hp),
    fun key op value hp => hc.integer key op value (h _ hp)⟩

theorem exists_of_listVerdict? {b : Bool} {cs : List Condition} (h : listVerdict? s b cs = none) :
    ∃ c ∈ cs, c.verdict? s = none := by
  induction cs with
  | nil => cases h
  | cons c cs ih =>
    rcases join_eq_none h with hc | hcs
    · exact ⟨c, List.mem_cons_self, hc⟩
    · obtain ⟨c', hmem, hc'⟩ := ih hcs
      exact ⟨c', List.mem_cons_of_mem c hmem, hc'⟩

/-- An infinity in a condition is compared for equality with itself. -/
def EquatesInfinity (s : Signals) (c : Condition) : Prop :=
  ∃ key op x, Part (.scalar key op x) c ∧ op.isEquality = true ∧ s.scalar? key = some x ∧
    x.isInf = true

theorem EquatesInfinity.of_part {a c : Condition} (ha : a.EquatesInfinity s)
    (h : ∀ p, Part p a → Part p c) : c.EquatesInfinity s := by
  obtain ⟨key, op, x, hp, hx⟩ := ha
  exact ⟨key, op, x, h _ hp, hx⟩

/-- Nothing but an infinity that meets itself leaves a comparable condition without a verdict. -/
theorem equatesInfinity_of_verdict? {c : Condition} (hc : c.Comparable s) (h : c.verdict? s = none) :
    c.EquatesInfinity s := by
  induction c with
  | scalar key op value =>
    obtain ⟨hvalue, x, hkey, hx⟩ := hc.scalar key op value .self
    rw [verdict?, hkey, Option.bind_some, Comparison.verdict?] at h
    have hsilent : op.IsSilent x value := by
      by_contra hsays
      rw [if_neg hsays] at h
      cases h
    rcases hsilent with hnan | hnan | ⟨hop, rfl, hinf⟩
    · rw [hx] at hnan
      cases hnan
    · rw [hvalue] at hnan
      cases hnan
    · exact ⟨key, op, x, .self, hop, hkey, hinf⟩
  | integer key op value =>
    obtain ⟨n, hkey⟩ := hc.integer key op value .self
    rw [verdict?, hkey] at h
    cases h
  | hasFlag | lacksFlag | not =>
    rw [verdict?] at h
    cases h
  | all cs ih =>
    obtain ⟨c, hmem, hnone⟩ := exists_of_listVerdict? h
    have hpart (p : Condition) (hp : Part p c) : Part p (.all cs) := .all hmem hp
    exact (ih c hmem (hc.of_part hpart) hnone).of_part hpart
  | any cs ih =>
    obtain ⟨c, hmem, hnone⟩ := exists_of_listVerdict? h
    have hpart (p : Condition) (hp : Part p c) : Part p (.any cs) := .any hmem hp
    exact (ih c hmem (hc.of_part hpart) hnone).of_part hpart

/-- Where all keys are there and there is no NaN, a condition is opposite to its dual if and only if it
has a verdict, and otherwise both fail. It has one unless equality is asked of an infinity and itself. -/
theorem dual_holds {c : Condition} (hc : c.Comparable s) :
    (c.dual.holds s = !c.holds s ↔ (c.verdict? s).isSome = true) ∧
      (c.verdict? s = none → c.holds s = false ∧ c.dual.holds s = false) ∧
      (¬ c.EquatesInfinity s → c.dual.holds s = !c.holds s) := by
  obtain ⟨hholds, hdual⟩ := holds_verdict (s := s) c
  have hiff : c.dual.holds s = !c.holds s ↔ (c.verdict? s).isSome = true := by
    rw [hholds, hdual]
    rcases c.verdict? s with _ | _ | _ <;> decide
  refine ⟨hiff, ?_, fun hinf => hiff.mpr ?_⟩
  · intro hnone
    rw [hholds, hdual, hnone]
    exact ⟨rfl, rfl⟩
  · rw [Option.isSome_iff_ne_none]
    exact fun hnone => hinf (c.equatesInfinity_of_verdict? hc hnone)

/-- A jet that burns without end, while its gear is too high. -/
def burning : Condition :=
  .all [.not (.scalar "fuel" .ne (.ofBits 0x7f800000)), .integer "gear" .lt 3]

def endless : Signals :=
  ⟨[], [("gear", 5)], [("fuel", .ofBits 0x7f800000)]⟩

theorem comparable_burning : burning.Comparable endless := by
  constructor
  · intro key op value hp
    obtain ⟨rfl, -, rfl⟩ : key = "fuel" ∧ op = .ne ∧ value = .ofBits 0x7f800000 := by
      simpa [burning] using hp
    exact ⟨by decide, .ofBits 0x7f800000, rfl, by decide⟩
  · intro key op value hp
    obtain ⟨rfl, -⟩ : key = "gear" ∧ op = .lt ∧ value = 3 := by
      simpa [burning] using hp
    exact ⟨5, rfl⟩

theorem dual_holds_burning :
    burning.Comparable endless ∧ burning.verdict? endless = some false ∧
      burning.dual.holds endless = !burning.holds endless := by
  have hverdict : burning.verdict? endless = some false := by decide
  refine ⟨comparable_burning, hverdict, (dual_holds comparable_burning).1.mpr ?_⟩
  rw [hverdict, Option.isSome_some]

/-- An infinity is neither equal nor unequal to itself. -/
theorem equal_infinities_fail_dual :
    (Condition.scalar "fuel" .eq (.ofBits 0x7f800000)).Comparable endless ∧
      (Condition.scalar "fuel" .eq (.ofBits 0x7f800000)).holds endless = false ∧
      (Condition.scalar "fuel" .eq (.ofBits 0x7f800000)).dual.holds endless = false := by
  refine ⟨⟨?_, ?_⟩, by decide, by decide⟩
  · rintro key op value ⟨⟩
    exact ⟨by decide, .ofBits 0x7f800000, rfl, by decide⟩
  · rintro key op value ⟨⟩

end Condition

end TileWorld
