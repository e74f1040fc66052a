import TileWorld.Proofs.NamedSignals

/-! Writes of signals, one at a time. A controller is blind to all that its rules do not name, also
where they name a signal of another kind under the same key. -/
namespace TileWorld

inductive SignalWrite where
  | setFlag (key : String)
  | clearFlag (key : String)
  | setInteger (key : String) (value : Int32)
  | setScalar (key : String) (value : Float32)
deriving DecidableEq

namespace SignalWrite

/-- The signal that is written. -/
def name : SignalWrite → SignalName
  | .setFlag key | .clearFlag key => .flag key
  | .setInteger key _ => .integer key
  | .setScalar key _ => .scalar key

def apply (s : Signals) : SignalWrite → Signals
  | .setFlag key => s.setFlag key
  | .clearFlag key => s.clearFlag key
  | .setInteger key value => s.setInteger key value
  | .setScalar key value => s.setScalar key value

end SignalWrite

namespace Signals

variable {names : List SignalName}

/-- The signals after some writes, the first of them first. -/
def writeAll (s : Signals) (writes : List SignalWrite) : Signals :=
  writes.foldl SignalWrite.apply s

theorem agreeOn_apply (s : Signals) (w : SignalWrite) (h : w.name ∉ names) :
    AgreeOn names s (w.apply s) := by
  cases w with
  | setFlag key => exact s.agreeOn_setFlag h
  | clearFlag key => exact s.agreeOn_clearFlag h
  | setInteger key value => exact s.agreeOn_setInteger value h
  | setScalar key value => exact s.agreeOn_setScalar value h

theorem agreeOn_writeAll (s : Signals) (writes : List SignalWrite) (h : ∀ w ∈ writes, w.name ∉ names) :
    AgreeOn names s (s.writeAll writes) := by
  induction writes generalizing s with
  | nil => exact .refl names s
  | cons w writes ih =>
    obtain ⟨hw, hwrites⟩ := List.forall_mem_cons.mp h
    exact (s.agreeOn_apply w hw).trans (ih (w.apply s) hwrites)

end Signals

namespace Controller

/-- Whether a condition holds depends on the signals that it names, and so no write of other signals
changes the tile that is selected. -/
theorem selected_writeAll :
    (∀ (c : Condition) (s s' : Signals), Signals.AgreeOn c.names s s' → c.holds s = c.holds s') ∧
      ∀ (c : Controller) (s : Signals) (writes : List SignalWrite),
        (∀ w ∈ writes, w.name ∉ c.names) → c.selected (s.writeAll writes) = c.selected s := by
  refine ⟨fun c _ _ h => c.holds_congr h, fun c s writes h => ?_⟩
  exact (selected_congr (s.agreeOn_writeAll writes h)).symm

/-- A gate that opens for a key, unless it is locked. -/
def keyGate : Controller :=
  .start "gate.json" 0
    [⟨.all [.integer "key" .ge 1, .not (.any [.hasFlag "lock", .scalar "heat" .gt 3.5])], 7⟩]

/-- The keys of its rules, each written as another kind. -/
def gateWrites : List SignalWrite :=
  [.setFlag "key", .setInteger "lock" 1, .setScalar "key" 0, .setInteger "heat" 9, .clearFlag "heat",
    .setFlag "lamp"]

theorem selected_writeAll_keyGate :
    (∀ w ∈ gateWrites, w.name ∉ keyGate.names) ∧
      keyGate.selected (.writeAll ⟨[], [("key", 2)], [("heat", 1.5)]⟩ gateWrites) = 7 := by
  have hwrites : ∀ w ∈ gateWrites, w.name ∉ keyGate.names := by decide
  refine ⟨hwrites, (selected_writeAll.2 keyGate _ gateWrites hwrites).trans ?_⟩
  decide

end Controller

end TileWorld
