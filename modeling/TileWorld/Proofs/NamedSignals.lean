import Mathlib.Data.List.Find
import TileWorld.Animation.Controller

/-! The signals that a controller reads: the flags, integers and scalars that its rules name. Signals
in which these are the same select the same tile. -/
namespace TileWorld

/-- A signal by its kind and its key. -/
inductive SignalName where
  | flag (key : String)
  | integer (key : String)
  | scalar (key : String)
deriving DecidableEq

namespace Condition

mutual

/-- The signals that a condition asks for. -/
def names : Condition → List SignalName
  | .scalar key _ _ => [.scalar key]
  | .integer key _ _ => [.integer key]
  | .hasFlag key | .lacksFlag key => [.flag key]
  | .all cs | .any cs => listNames cs
  | .not c => names c

def listNames : List Condition → List SignalName
  | [] => []
  | c :: cs => names c ++ listNames cs

end

end Condition

def Controller.names (c : Controller) : List SignalName :=
  c.rules.flatMap (·.condition.names)

namespace Signals

variable {s s' : Signals} {names : List SignalName}

/-- A name stands for the same in two sets of signals. -/
def AgreeAt (s s' : Signals) : SignalName → Prop
  | .flag key => s.hasFlag key = s'.hasFlag key
  | .integer key => s.integer? key = s'.integer? key
  | .scalar key => s.scalar? key = s'.scalar? key

def AgreeOn (names : List SignalName) (s s' : Signals) : Prop :=
  ∀ name ∈ names, s.AgreeAt s' name

theorem agreeOn_append {more : List SignalName} :
    AgreeOn (names ++ more) s s' ↔ AgreeOn names s s' ∧ AgreeOn more s s' :=
  List.forall_mem_append

theorem AgreeOn.refl (names : List SignalName) (s : Signals) : AgreeOn names s s := by
  intro name _
  cases name with
  | flag | integer | scalar => rfl

theorem AgreeOn.trans {s'' : Signals} (h : AgreeOn names s s') (h' : AgreeOn names s' s'') :
    AgreeOn names s s'' := by
  intro name hn
  cases name with
  | flag | integer | scalar => exact (h _ hn).trans (h' _ hn)

/-- Signals with the same tables agree on all names but those of flags that differ. -/
theorem agreeOn_of_flags (hi : s'.integers = s.integers) (hs : s'.scalars = s.scalars)
    (hf : ∀ key, .flag key ∈ names → s.hasFlag key = s'.hasFlag key) : AgreeOn names s s' := by
  intro name hn
  cases name with
  | flag key => exact hf key hn
  | integer key => rw [AgreeAt, integer?, integer?, hi]
  | scalar key => rw [AgreeAt, scalar?, scalar?, hs]

theorem agreeOn_setFlag (s : Signals) {key : String} (h : .flag key ∉ names) :
    AgreeOn names s (s.setFlag key) := by
  have htables : (s.setFlag key).integers = s.integers ∧ (s.setFlag key).scalars = s.scalars := by
    rw [setFlag]
    split
    · exact ⟨rfl, rfl⟩
    · exact ⟨rfl, rfl⟩
  refine agreeOn_of_flags htables.1 htables.2 fun other hother => ?_
  have hne : other ≠ key := fun he => h (he ▸ hother)
  rw [hasFlag_setFlag, beq_false_of_ne hne, Bool.or_false]

theorem agreeOn_clearFlag (s : Signals) {key : String} (h : .flag key ∉ names) :
    AgreeOn names s (s.clearFlag key) := by
  refine agreeOn_of_flags rfl rfl fun other hother => ?_
  have hne : other ≠ key := fun he => h (he ▸ hother)
  rw [hasFlag_clearFlag, bne_iff_ne.mpr hne, Bool.and_true]

theorem agreeOn_setInteger (s : Signals) {key : String} (value : Int32) (h : .integer key ∉ names) :
    AgreeOn names s (s.setInteger key value) := by
  intro name hn
  cases name with
  | integer other =>
    have hne : other ≠ key := fun he => h (he ▸ hn)
    rw [AgreeAt, integer?_setInteger, if_neg hne]
  | flag | scalar => rfl

theorem agreeOn_setScalar (s : Signals) {key : String} (value : Float32) (h : .scalar key ∉ names) :
    AgreeOn names s (s.setScalar key value) := by
  intro name hn
  cases name with
  | scalar other =>
    have hne : other ≠ key := fun he => h (he ▸ hn)
    rw [AgreeAt, scalar?_setScalar, if_neg hne]
  | flag | integer => rfl

end Signals

namespace Condition

variable {s s' : Signals}

mutual

theorem holds_congr : ∀ c : Condition, Signals.AgreeOn c.names s s' → c.holds s = c.holds s'
  | .scalar key op value, h => by
    have hkey : s.scalar? key = s'.scalar? key := h (.scalar key) List.mem_cons_self
    rw [holds, holds, hkey]
  | .integer key op value, h => by
    have hkey : s.integer? key = s'.integer? key := h (.integer key) List.mem_cons_self
    rw [holds, holds, hkey]
  | .hasFlag key, h => h (.flag key) List.mem_cons_self
  | .lacksFlag key, h => by
    have hkey : s.hasFlag key = s'.hasFlag key := h (.flag key) List.mem_cons_self
    rw [holds, holds, hkey]
  | .all cs, h => allHold_congr cs h
  | .any cs, h => anyHolds_congr cs h
  | .not c, h => by rw [holds, holds, holds_congr c h]

theorem allHold_congr : ∀ cs : List Condition,
    Signals.AgreeOn (listNames cs) s s' → allHold s cs = allHold s' cs
  | [], _ => rfl
  | c :: cs, h => by
    obtain ⟨hc, hcs⟩ := Signals.agreeOn_append.mp h
    rw [allHold, allHold, holds_congr c hc, allHold_congr cs hcs]

theorem anyHolds_congr : ∀ cs : List Condition,
    Signals.AgreeOn (listNames cs) s s' → anyHolds s cs = anyHolds s' cs
  | [], _ => rfl
  | c :: cs, h => by
    obtain ⟨hc, hcs⟩ := Signals.agreeOn_append.mp h
    rw [anyHolds, anyHolds, holds_congr c hc, anyHolds_congr cs hcs]

end

end Condition

/-- The tile that a controller selects depends on the signals that its rules name, and on nothing
else. -/
theorem Controller.selected_congr {c : Controller} {s s' : Signals}
    (h : Signals.AgreeOn c.names s s') : c.selected s = c.selected s' := by
  have hrules : ∀ rule ∈ c.rules, rule.condition.holds s = rule.condition.holds s' := by
    intro rule hrule
    refine rule.condition.holds_congr fun name hname => h name ?_
    exact List.mem_flatMap.mpr ⟨rule, hrule, hname⟩
  rw [selected, selected, List.find?_congr hrules]

end TileWorld
