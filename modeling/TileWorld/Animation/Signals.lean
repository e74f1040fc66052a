/-! Signals of an entity: flags, integers and scalars by key, each kind apart from the others. -/
namespace TileWorld

/-- Values by key, in order of first writing. -/
abbrev Table (α : Type) := List (String × α)

namespace Table

variable {α : Type}

def get? (t : Table α) (key : String) : Option α :=
  List.lookup key t

def set (t : Table α) (key : String) (value : α) : Table α :=
  match t with
  | [] => [(key, value)]
  | (k, v) :: rest => if k = key then (key, value) :: rest else (k, v) :: set rest key value

theorem get?_set (t : Table α) (key other : String) (value : α) :
    (t.set key value).get? other = if other = key then some value else t.get? other := by
  induction t with
  | nil => grind [set, get?]
  | cons entry rest ih => grind [set, get?]

end Table

structure Signals where
  flags : List String
  integers : Table Int32
  scalars : Table Float32
deriving DecidableEq, Inhabited

namespace Signals

def empty : Signals :=
  ⟨[], [], []⟩

def hasFlag (s : Signals) (key : String) : Bool :=
  s.flags.contains key

def setFlag (s : Signals) (key : String) : Signals :=
  if s.hasFlag key then s else { s with flags := s.flags ++ [key] }

def clearFlag (s : Signals) (key : String) : Signals :=
  { s with flags := s.flags.filter (· ≠ key) }

theorem hasFlag_setFlag (s : Signals) (key other : String) :
    (s.setFlag key).hasFlag other = (s.hasFlag other || other == key) := by
  by_cases h : s.hasFlag key
  · grind [setFlag, hasFlag]
  · grind [setFlag, hasFlag]

theorem hasFlag_clearFlag (s : Signals) (key other : String) :
    (s.clearFlag key).hasFlag other = (s.hasFlag other && other != key) := by
  simp only [clearFlag, hasFlag]
  grind

def integer? (s : Signals) (key : String) : Option Int32 :=
  s.integers.get? key

def setInteger (s : Signals) (key : String) (value : Int32) : Signals :=
  { s with integers := s.integers.set key value }

theorem integer?_setInteger (s : Signals) (key other : String) (value : Int32) :
    (s.setInteger key value).integer? other =
      if other = key then some value else s.integer? other :=
  Table.get?_set ..

def scalar? (s : Signals) (key : String) : Option Float32 :=
  s.scalars.get? key

def setScalar (s : Signals) (key : String) (value : Float32) : Signals :=
  { s with scalars := s.scalars.set key value }

theorem scalar?_setScalar (s : Signals) (key other : String) (value : Float32) :
    (s.setScalar key value).scalar? other =
      if other = key then some value else s.scalar? other :=
  Table.get?_set ..

end Signals

end TileWorld
